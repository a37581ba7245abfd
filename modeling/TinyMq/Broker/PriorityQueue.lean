import Mathlib.Algebra.BigOperators.Group.Finset.Piecewise
import Mathlib.Algebra.BigOperators.Fin
import Mathlib.Algebra.Order.BigOperators.Group.Finset
import Mathlib.Data.List.Infix
import TinyMq.Lib.BitMasks
import TinyMq.Lib.Machines
import TinyMq.Broker.Message

/-!
`PriorityQueueT` of `Message.h` as its threads see it: any number of producers
in `enqueue`, any number of consumers in `wait_dequeue_timed` or `try_dequeue`.
A band is a linearizable FIFO queue and the semaphore a counter; every access to
a band, to the `_nonEmpty` mask or to the semaphore is a step of its own, and a
step that is not enabled changes nothing.
-/
namespace TinyMqPriorityQueue
open BandQueues BitMasks TinyMqMessage Machines

/-- One call of `enqueue`, with the number of calls before it. The pointer may be null. -/
structure Entry (P : Nat) where
  call : Nat
  producer : Fin P
  msg : Option Message
  deriving DecidableEq

def Entry.prio {P : Nat} (e : Entry P) : Fin 10 :=
  match e.msg with
  | some m => m.band
  | none => 4

inductive ProducerPc (P : Nat) where
  | idle
  | fetchOr (entry : Entry P)
  | signal (entry : Entry P)
  deriving DecidableEq

/-- Where a dequeue stands. `load` is the first load and the reload at the end of the
    loop, `scan left` has the bands below `left` still to try. -/
inductive ConsumerPc where
  | idle
  | load
  | walk (mask : BitVec 16)
  | fetchAnd (band : Nat)
  | scan (left : Nat)
  | returnToken
  deriving DecidableEq

/-- The last three fields say what happened: the calls of `enqueue` in the order of
    their pushes, the messages returned, and for each consumer the messages whose
    `enqueue` was complete when its dequeue took the token. -/
structure State (P C : Nat) where
  queue : BandQueue 10 (Entry P) := .empty
  nonEmpty : BitVec 16 := 0
  sema : Nat := 0
  producers : Fin P → ProducerPc P := fun _ => .idle
  consumers : Fin C → ConsumerPc := fun _ => .idle
  pushed : List (Entry P) := []
  returned : List (Fin C × Entry P) := []
  before : Fin C → List (Entry P) := fun _ => []

variable {P C : Nat}

/-- `try_dequeue` of one band. -/
def tryDequeue (q : BandQueue 10 (Entry P)) (band : Nat) :
    Option (Entry P × BandQueue 10 (Entry P)) :=
  if inside : band < 10 then
    match q.bands ⟨band, inside⟩ with
    | [] => none
    | e :: rest => some (e, ⟨Function.update q.bands ⟨band, inside⟩ rest⟩)
  else none

def State.Unmarked (s : State P C) (e : Entry P) : Prop :=
  ∃ p, s.producers p = .fetchOr e

def State.Open (s : State P C) (e : Entry P) : Prop :=
  ∃ p, s.producers p = .fetchOr e ∨ s.producers p = .signal e

instance (s : State P C) (e : Entry P) : Decidable (s.Unmarked e) :=
  inferInstanceAs (Decidable (∃ p, s.producers p = .fetchOr e))

instance (s : State P C) (e : Entry P) : Decidable (s.Open e) :=
  inferInstanceAs (Decidable (∃ p, s.producers p = .fetchOr e ∨ s.producers p = .signal e))

def State.completed (s : State P C) : List (Entry P) :=
  s.queue.toList.filter fun e => ¬ s.Open e

inductive Act (P C : Nat) where
  | enqueue (p : Fin P) (msg : Option Message)
  | producer (p : Fin P)
  | consumer (c : Fin C)

def enqueueStep (s : State P C) (p : Fin P) (msg : Option Message) :
    State P C :=
  let e : Entry P := ⟨s.pushed.length, p, msg⟩
  if s.producers p = .idle then
    { s with queue := s.queue.enqueue e.prio e, pushed := s.pushed ++ [e],
             producers := Function.update s.producers p (.fetchOr e) }
  else s

def producerStep (s : State P C) (p : Fin P) : State P C :=
  match s.producers p with
  | .idle => s
  | .fetchOr e =>
    { s with nonEmpty := set s.nonEmpty e.prio,
             producers := Function.update s.producers p (.signal e) }
  | .signal _ =>
    { s with sema := s.sema + 1, producers := Function.update s.producers p .idle }

def returnMsg (s : State P C) (c : Fin C) (e : Entry P)
    (q : BandQueue 10 (Entry P)) : State P C :=
  { s with queue := q, returned := s.returned ++ [(c, e)],
           consumers := Function.update s.consumers c .idle }

/-- A wait that times out and a `tryWait` without a token return false and change nothing. -/
def consumerStep (s : State P C) (c : Fin C) : State P C :=
  let goto pc := Function.update s.consumers c pc
  match s.consumers c with
  | .idle =>
    if 0 < s.sema then
      { s with sema := s.sema - 1, consumers := goto .load,
               before := Function.update s.before c s.completed }
    else s
  | .load => { s with consumers := goto (if s.nonEmpty = 0 then .scan 10 else .walk s.nonEmpty) }
  | .walk mask =>
    match tryDequeue s.queue (top mask) with
    | some (e, q) => returnMsg s c e q
    | none => { s with consumers := goto (.fetchAnd (top mask)) }
  | .fetchAnd band => { s with nonEmpty := clear s.nonEmpty band, consumers := goto .load }
  | .scan 0 => { s with consumers := goto .returnToken }
  | .scan (band + 1) =>
    match tryDequeue s.queue band with
    | some (e, q) => returnMsg s c e q
    | none => { s with consumers := goto (.scan band) }
  | .returnToken => { s with sema := s.sema + 1, consumers := goto .idle }

def next (s : State P C) : Act P C → State P C
  | .enqueue p msg => enqueueStep s p msg
  | .producer p => producerStep s p
  | .consumer c => consumerStep s c

def TriesAt (pc : ConsumerPc) (band : Nat) : Prop :=
  (∃ mask, pc = .walk mask ∧ band = top mask) ∨ pc = .scan (band + 1)

inductive Move (s : State P C) : Act P C → State P C → Prop where
  | stays (a : Act P C) : Move s a s
  | push (p : Fin P) (msg : Option Message) (e : Entry P) (call : e = ⟨s.pushed.length, p, msg⟩)
      (at_ : s.producers p = .idle) :
      Move s (.enqueue p msg)
        { s with queue := s.queue.enqueue e.prio e, pushed := s.pushed ++ [e],
                 producers := Function.update s.producers p (.fetchOr e) }
  | mark (p : Fin P) (e : Entry P) (at_ : s.producers p = .fetchOr e) :
      Move s (.producer p)
        { s with nonEmpty := set s.nonEmpty e.prio,
                 producers := Function.update s.producers p (.signal e) }
  | signal (p : Fin P) (e : Entry P) (at_ : s.producers p = .signal e) :
      Move s (.producer p)
        { s with sema := s.sema + 1, producers := Function.update s.producers p .idle }
  | acquire (c : Fin C) (at_ : s.consumers c = .idle) (token : 0 < s.sema) :
      Move s (.consumer c)
        { s with sema := s.sema - 1, consumers := Function.update s.consumers c .load,
                 before := Function.update s.before c s.completed }
  | begin (c : Fin C) (at_ : s.consumers c = .load) (some : s.nonEmpty ≠ 0) :
      Move s (.consumer c) { s with consumers := Function.update s.consumers c (.walk s.nonEmpty) }
  | fallBack (c : Fin C) (at_ : s.consumers c = .load) (none : s.nonEmpty = 0) :
      Move s (.consumer c) { s with consumers := Function.update s.consumers c (.scan 10) }
  | take (c : Fin C) (band : Fin 10) (e : Entry P) (rest : List (Entry P))
      (at_ : TriesAt (s.consumers c) band) (found : s.queue.bands band = e :: rest) :
      Move s (.consumer c) (returnMsg s c e ⟨Function.update s.queue.bands band rest⟩)
  | miss (c : Fin C) (mask : BitVec 16) (at_ : s.consumers c = .walk mask)
      (empty : tryDequeue s.queue (top mask) = none) :
      Move s (.consumer c)
        { s with consumers := Function.update s.consumers c (.fetchAnd (top mask)) }
  | clear (c : Fin C) (band : Nat) (at_ : s.consumers c = .fetchAnd band) :
      Move s (.consumer c)
        { s with nonEmpty := clear s.nonEmpty band,
                 consumers := Function.update s.consumers c .load }
  | pass (c : Fin C) (band : Nat) (at_ : s.consumers c = .scan (band + 1))
      (empty : tryDequeue s.queue band = none) :
      Move s (.consumer c) { s with consumers := Function.update s.consumers c (.scan band) }
  | exhaust (c : Fin C) (at_ : s.consumers c = .scan 0) :
      Move s (.consumer c) { s with consumers := Function.update s.consumers c .returnToken }
  | giveBack (c : Fin C) (at_ : s.consumers c = .returnToken) :
      Move s (.consumer c)
        { s with sema := s.sema + 1, consumers := Function.update s.consumers c .idle }

theorem tryDequeue_some {q r : BandQueue 10 (Entry P)} {band : Nat} {e : Entry P}
    (found : tryDequeue q band = some (e, r)) : ∃ (b : Fin 10) (rest : List (Entry P)),
      band = b ∧ q.bands b = e :: rest ∧ r = ⟨Function.update q.bands b rest⟩ := by
  unfold tryDequeue at found
  split at found
  next inside =>
    cases here : q.bands ⟨band, inside⟩ with
    | nil => simp [here] at found
    | cons x xs =>
      rw [here] at found
      obtain ⟨rfl, rfl⟩ := Prod.mk.inj (Option.some.inj found)
      exact ⟨⟨band, inside⟩, xs, rfl, here, rfl⟩
  next => cases found

theorem tryDequeue_none {q : BandQueue 10 (Entry P)} {b : Fin 10}
    (empty : tryDequeue q b = none) : q.bands b = [] := by
  unfold tryDequeue at empty
  rw [dif_pos b.isLt] at empty
  cases here : q.bands b with
  | nil => rfl
  | cons x xs => simp [here] at empty

theorem producerStep_moves (s : State P C) (p : Fin P) : Move s (.producer p) (producerStep s p) := by
  unfold producerStep
  cases at_ : s.producers p with
  | idle => exact .stays _
  | fetchOr e => exact .mark p e at_
  | signal e => exact .signal p e at_

theorem consumerStep_moves (s : State P C) (c : Fin C) : Move s (.consumer c) (consumerStep s c) := by
  unfold consumerStep
  cases at_ : s.consumers c with
  | idle =>
    dsimp only
    split
    next token => exact .acquire c at_ token
    next => exact .stays _
  | load =>
    dsimp only
    split
    next none => exact .fallBack c at_ none
    next some => exact .begin c at_ some
  | walk mask =>
    dsimp only
    cases found : tryDequeue s.queue (top mask) with
    | none => exact .miss c mask at_ found
    | some pair =>
      obtain ⟨b, rest, band, here, after⟩ := tryDequeue_some (e := pair.1) (r := pair.2) found
      dsimp only
      rw [after]
      exact .take c b pair.1 rest (.inl ⟨mask, at_, band.symm⟩) here
  | fetchAnd band => exact .clear c band at_
  | scan left =>
    cases left with
    | zero => exact .exhaust c at_
    | succ band =>
      dsimp only
      cases found : tryDequeue s.queue band with
      | none => exact .pass c band at_ found
      | some pair =>
        obtain ⟨b, rest, same, here, after⟩ := tryDequeue_some (e := pair.1) (r := pair.2) found
        dsimp only
        rw [after]
        exact .take c b pair.1 rest (.inr (same ▸ at_)) here
  | returnToken => exact .giveBack c at_

theorem next_moves (s : State P C) (a : Act P C) : Move s a (next s a) := by
  cases a with
  | enqueue p msg =>
    unfold next enqueueStep
    dsimp only
    split
    next at_ => exact .push p msg _ rfl at_
    next => exact .stays _
  | producer p => exact producerStep_moves s p
  | consumer c => exact consumerStep_moves s c

/-- A band holds what was pushed to it and not returned, in the order of the pushes. -/
structure Kept (s : State P C) : Prop where
  order : ∀ b, (s.returned.map (·.2)).filter (·.prio = b) ++ s.queue.bands b =
    s.pushed.filter (·.prio = b)
  calls : s.pushed.map (·.call) = List.range s.pushed.length

theorem Kept.sorted {s : State P C} (kept : Kept s) {b : Fin 10} {e : Entry P}
    (inside : e ∈ s.queue.bands b) : e.prio = b ∧ e ∈ s.pushed := by
  have pushed : e ∈ s.pushed.filter (·.prio = b) := by
    rw [← kept.order b]
    exact List.mem_append_right _ inside
  simpa [and_comm] using List.mem_filter.mp pushed

theorem Kept.returned_pushed {s : State P C} (kept : Kept s) {r : Fin C × Entry P}
    (member : r ∈ s.returned) : r.2 ∈ s.pushed := by
  have band : r.2 ∈ s.pushed.filter (·.prio = r.2.prio) := by
    rw [← kept.order r.2.prio]
    exact List.mem_append_left _ (List.mem_filter.mpr ⟨List.mem_map_of_mem member, by simp⟩)
  exact (List.mem_filter.mp band).1

theorem Kept.call_lt {s : State P C} (kept : Kept s) {e : Entry P} (pushed : e ∈ s.pushed) :
    e.call < s.pushed.length := by
  have member := List.mem_map_of_mem (f := Entry.call) pushed
  rw [kept.calls] at member
  exact List.mem_range.mp member

theorem Kept.nodup {s : State P C} (kept : Kept s) : s.pushed.Nodup := by
  have calls : (s.pushed.map (·.call)).Nodup := by
    rw [kept.calls]
    exact List.nodup_range
  exact calls.of_map _

theorem kept_start : Kept ({} : State P C) where
  order _ := rfl
  calls := rfl

theorem Move.kept {s t : State P C} {a : Act P C} (move : Move s a t) (kept : Kept s) : Kept t := by
  cases move with
  | push p msg e call at_ =>
    refine ⟨?_, ?_⟩
    · intro b
      by_cases same : e.prio = b
      · subst same
        simp [BandQueue.enqueue, List.filter_append, ← kept.order]
      · have other : b ≠ e.prio := fun equal => same equal.symm
        simp [BandQueue.enqueue, Function.update_of_ne other, List.filter_append, same,
          ← kept.order]
    · simp [kept.calls, call, List.range_succ]
  | take c band e rest at_ found =>
    refine ⟨?_, kept.calls⟩
    intro b
    have order := kept.order b
    by_cases same : b = band
    · subst same
      have own : e.prio = b := (kept.sorted (b := b) (by simp [found])).1
      rw [found] at order
      simpa [returnMsg, List.filter_append, own] using order
    · have own : e.prio = band := (kept.sorted (b := band) (by simp [found])).1
      have other : ¬ e.prio = b := fun equal => same (equal.symm.trans own)
      simpa [returnMsg, List.filter_append, other, Function.update_of_ne same] using order
  | stays | mark | signal | acquire | begin | fallBack | miss | clear | pass | exhaust | giveBack =>
    exact ⟨kept.order, kept.calls⟩

def ProducerPc.owes : ProducerPc P → Nat
  | .idle => 0
  | _ => 1

def ConsumerPc.token : ConsumerPc → Nat
  | .idle => 0
  | _ => 1

/-- Each message in a band is covered by a token, free or held, or by a signal to come. -/
def Balanced (s : State P C) : Prop :=
  s.queue.toList.length = s.sema + ∑ p, (s.producers p).owes + ∑ c, (s.consumers c).token

theorem sum_moved {n : Nat} {α : Type} (f : Fin n → α) (g : α → Nat) (i : Fin n) (x : α) :
    ∑ j, g (Function.update f i x j) + g (f i) = ∑ j, g (f j) + g x := by
  have moved : (fun j => g (Function.update f i x j)) = Function.update (fun j => g (f j)) i (g x) := by
    funext j
    by_cases same : j = i
    · subst same
      simp
    · simp [Function.update_of_ne same]
  have inside : i ∈ Finset.univ := Finset.mem_univ i
  rw [moved, Finset.sum_update_of_mem inside,
    ← Finset.add_sum_erase Finset.univ (fun j => g (f j)) inside, Finset.sdiff_singleton_eq_erase]
  omega

theorem TriesAt.token {pc : ConsumerPc} {band : Nat} (tries : TriesAt pc band) : pc.token = 1 := by
  rcases tries with ⟨mask, at_, -⟩ | at_ <;> simp [at_, ConsumerPc.token]

theorem Move.balanced {s t : State P C} {a : Act P C} (move : Move s a t) (balanced : Balanced s) :
    Balanced t := by
  unfold Balanced at *
  cases move with
  | stays => exact balanced
  | push p msg e call at_ =>
    have more := (enqueue_perm s.queue e.prio e).length_eq
    have moved := sum_moved s.producers ProducerPc.owes p (.fetchOr e)
    simp only [at_, ProducerPc.owes, List.length_cons] at *
    omega
  | mark p e at_ =>
    have moved := sum_moved s.producers ProducerPc.owes p (.signal e)
    simp only [at_, ProducerPc.owes] at *
    omega
  | signal p e at_ =>
    have moved := sum_moved s.producers ProducerPc.owes p .idle
    simp only [at_, ProducerPc.owes] at *
    omega
  | acquire c at_ token =>
    have moved := sum_moved s.consumers ConsumerPc.token c .load
    simp only [at_, ConsumerPc.token] at *
    omega
  | take c band e rest at_ found =>
    have fewer := (take_perm found).length_eq
    have moved := sum_moved s.consumers ConsumerPc.token c .idle
    have held := at_.token
    simp only [returnMsg, ConsumerPc.token, List.length_cons] at *
    omega
  | giveBack c at_ =>
    have moved := sum_moved s.consumers ConsumerPc.token c .idle
    simp only [at_, ConsumerPc.token] at *
    omega
  | begin c at_ | fallBack c at_ | miss c mask at_ | clear c band at_ | pass c band at_
  | exhaust c at_ =>
    all_goals
      rw [balanced]
      congr 1
      symm
      apply Finset.sum_congr rfl
      intro d _
      by_cases same : d = c
      · subst same
        simp [at_, ConsumerPc.token]
      · simp [Function.update_of_ne same]

theorem Balanced.message_there {s : State P C} (balanced : Balanced s) {c : Fin C}
    (token : (s.consumers c).token = 1) : ∃ b, s.queue.bands b ≠ [] := by
  have held : (s.consumers c).token ≤ ∑ d, (s.consumers d).token :=
    Finset.single_le_sum (f := fun d => (s.consumers d).token) (fun _ _ => Nat.zero_le _)
      (Finset.mem_univ c)
  unfold Balanced at balanced
  obtain ⟨e, member⟩ := List.exists_mem_of_length_pos (l := s.queue.toList) (by omega)
  obtain ⟨b, inside⟩ := mem_toList.mp member
  exact ⟨b, List.ne_nil_of_mem inside⟩

/-- The only consumer still has a message before it when it scans the bands. -/
structure Finds (s : State P 1) : Prop where
  below : ∀ c left, s.consumers c = .scan left → ∃ b : Fin 10, b < left ∧ s.queue.bands b ≠ []
  keeps : ∀ c, s.consumers c ≠ .returnToken

theorem finds_start : Finds ({} : State P 1) where
  below c left at_ := by cases at_
  keeps c at_ := by cases at_

theorem Finds.of_pc {s : State P 1} {c : Fin 1} {pc : ConsumerPc} {t : State P 1}
    (moved : t.consumers = Function.update s.consumers c pc)
    (below : ∀ left, pc = .scan left → ∃ b : Fin 10, b < left ∧ t.queue.bands b ≠ [])
    (keeps : pc ≠ .returnToken) : Finds t := by
  have only : ∀ d, t.consumers d = pc := by
    intro d
    rw [moved, Subsingleton.elim d c, Function.update_self]
  exact ⟨fun d left at_ => below left (only d ▸ at_), fun d => only d ▸ keeps⟩

theorem Move.finds {s t : State P 1} {a : Act P 1} (move : Move s a t) (balanced : Balanced s)
    (finds : Finds s) : Finds t := by
  cases move with
  | stays | mark | signal => exact ⟨finds.below, finds.keeps⟩
  | push p msg e call at_ =>
    refine ⟨?_, finds.keeps⟩
    intro c left at_
    obtain ⟨b, low, some⟩ := finds.below c left at_
    refine ⟨b, low, ?_⟩
    by_cases same : b = e.prio
    · subst same
      simp [BandQueue.enqueue]
    · simpa [BandQueue.enqueue, Function.update_of_ne same] using some
  | acquire c | begin c | miss c | clear c =>
    all_goals exact Finds.of_pc (c := c) rfl (fun _ scan => by cases scan) (by simp)
  | take c => exact Finds.of_pc (c := c) rfl (fun _ scan => by cases scan) (by simp)
  | fallBack c at_ =>
    refine Finds.of_pc (c := c) rfl ?_ (by simp)
    intro left at_'
    cases at_'
    obtain ⟨b, some⟩ := balanced.message_there (c := c) (by simp [at_, ConsumerPc.token])
    exact ⟨b, b.isLt, some⟩
  | pass c band at_ empty =>
    refine Finds.of_pc (c := c) rfl ?_ (by simp)
    intro left at_'
    cases at_'
    obtain ⟨b, low, some⟩ := finds.below c (band + 1) at_
    refine ⟨b, ?_, some⟩
    have other : (b : Nat) ≠ band := by
      intro same
      exact some (tryDequeue_none (by rw [same]; exact empty))
    omega
  | exhaust c at_ =>
    obtain ⟨b, low, -⟩ := finds.below c 0 at_
    omega
  | giveBack c at_ => exact absurd at_ (finds.keeps c)

theorem kept_reached (acts : List (Act P C)) : ∀ t ∈ states next {} acts, Kept t :=
  invariant_reached (fun s a kept => (next_moves s a).kept kept) kept_start acts

theorem balanced_start : Balanced ({} : State P C) := by
  simp [Balanced, ProducerPc.owes, ConsumerPc.token]

theorem balanced_reached (acts : List (Act P C)) : ∀ t ∈ states next {} acts, Balanced t :=
  invariant_reached (fun s a balanced => (next_moves s a).balanced balanced) balanced_start acts

theorem finds_reached (acts : List (Act P 1)) : ∀ t ∈ states next {} acts, Balanced t ∧ Finds t :=
  invariant_reached
    (fun s a both => ⟨(next_moves s a).balanced both.1, (next_moves s a).finds both.1 both.2⟩)
    ⟨balanced_start, finds_start⟩ acts

def State.Quiescent (s : State P C) : Prop :=
  (∀ p, s.producers p = .idle) ∧ ∀ c, s.consumers c = .idle

def State.givenTo (s : State P C) (c : Fin C) : List (Entry P) :=
  (s.returned.filter (·.1 = c)).map (·.2)

theorem Kept.once {s : State P C} (kept : Kept s) {e : Entry P} (pushed : e ∈ s.pushed) :
    (s.returned.map (·.2)).count e + (s.queue.bands e.prio).count e = 1 := by
  have one : s.pushed.count e = 1 := List.count_eq_one_of_mem kept.nodup pushed
  have split := congrArg (List.count e) (kept.order e.prio)
  rw [List.count_append, List.count_filter (by simp), List.count_filter (by simp), one] at split
  exact split

theorem filter_both (l : List (Entry P)) (b : Fin 10) (p : Fin P) :
    (l.filter fun e => e.prio = b ∧ e.producer = p) =
      (l.filter (·.prio = b)).filter (·.producer = p) := by
  rw [List.filter_filter]
  congr 1
  funext e
  simp [Bool.and_comm]

theorem Kept.fifo {s : State P C} (kept : Kept s) (c : Fin C) (b : Fin 10) (p : Fin P) :
    ((s.givenTo c).filter fun e => e.prio = b ∧ e.producer = p).Sublist
      (s.pushed.filter fun e => e.prio = b ∧ e.producer = p) := by
  have given : (s.givenTo c).Sublist (s.returned.map (·.2)) := List.filter_sublist.map _
  have band : ((s.returned.map (·.2)).filter (·.prio = b)).Sublist (s.pushed.filter (·.prio = b)) := by
    rw [← kept.order b]
    exact List.sublist_append_left _ _
  rw [filter_both, filter_both]
  exact ((given.filter _).trans band).filter _

theorem Balanced.quiescent {s : State P C} (balanced : Balanced s) (quiet : s.Quiescent) :
    s.sema = s.queue.toList.length := by
  rw [balanced]
  simp [quiet.1, quiet.2, ProducerPc.owes, ConsumerPc.token]

theorem Kept.fifo_alone {s : State P 1} (kept : Kept s) (c : Fin 1) (b : Fin 10) (p : Fin P) :
    ((s.givenTo c).filter fun e => e.prio = b ∧ e.producer = p) <+:
      s.pushed.filter fun e => e.prio = b ∧ e.producer = p := by
  have all : s.givenTo c = s.returned.map (·.2) := by
    unfold State.givenTo
    rw [List.filter_eq_self.mpr]
    intro r _
    simp [Subsingleton.elim r.1 c]
  have band : ((s.returned.map (·.2)).filter (·.prio = b)) <+: s.pushed.filter (·.prio = b) :=
    ⟨_, kept.order b⟩
  rw [all, filter_both, filter_both]
  exact band.filter _

theorem messages_and_tokens_conserved (P C : Nat) :
    (∀ acts : List (Act P C), ∀ t ∈ states next {} acts,
      (∀ e ∈ t.pushed, (t.returned.map (·.2)).count e + (t.queue.bands e.prio).count e = 1) ∧
      (∀ r ∈ t.returned, r.2 ∈ t.pushed) ∧
      (∀ b, ∀ e ∈ t.queue.bands b, e ∈ t.pushed ∧ e.prio = b) ∧
      (∀ c b p, ((t.givenTo c).filter fun e => e.prio = b ∧ e.producer = p).Sublist
        (t.pushed.filter fun e => e.prio = b ∧ e.producer = p)) ∧
      (t.Quiescent → t.sema = t.queue.toList.length)) ∧
    ∀ acts : List (Act P 1), ∀ t ∈ states next {} acts,
      (∀ c b p, ((t.givenTo c).filter fun e => e.prio = b ∧ e.producer = p) <+:
        t.pushed.filter fun e => e.prio = b ∧ e.producer = p) ∧
      ∀ c, t.consumers c ≠ .returnToken := by
  constructor
  · intro acts t reached
    have kept := kept_reached acts t reached
    have balanced := balanced_reached acts t reached
    refine ⟨fun e pushed => kept.once pushed, ?_, ?_, kept.fifo, balanced.quiescent⟩
    · intro r member
      exact kept.returned_pushed member
    · intro b e inside
      exact (kept.sorted inside).symm
  · intro acts t reached
    have kept := kept_reached acts t reached
    exact ⟨kept.fifo_alone, (finds_reached acts t reached).2.keeps⟩

theorem two_producers_kept :
    ∃ t ∈ states next ({} : State 2 2) [.enqueue 0 none, .enqueue 1 none, .producer 0, .producer 0,
        .consumer 0, .consumer 0, .consumer 1, .consumer 0],
      t.returned.length = 1 ∧ ∀ e ∈ t.pushed,
        (t.returned.map (·.2)).count e + (t.queue.bands e.prio).count e = 1 := by
  refine ⟨_, last_state_mem _ _ _, by decide, ?_⟩
  exact ((messages_and_tokens_conserved 2 2).1 _ _ (last_state_mem _ _ _)).1

/-- Every band a mask or a consumer names is one of the array. -/
structure InRange (s : State P C) : Prop where
  bits : ∀ i, s.nonEmpty.getLsbD i = true → i < 10
  walks : ∀ c mask, s.consumers c = .walk mask → top mask < 10
  scans : ∀ c left, s.consumers c = .scan left → left ≤ 10

theorem InRange.consumed {s t : State P C} (range : InRange s) {c : Fin C} {pc : ConsumerPc}
    (consumers : t.consumers = Function.update s.consumers c pc)
    (bits : ∀ i, t.nonEmpty.getLsbD i = true → s.nonEmpty.getLsbD i = true)
    (walks : ∀ mask, pc = .walk mask → top mask < 10)
    (scans : ∀ left, pc = .scan left → left ≤ 10) : InRange t where
  bits i bit := range.bits i (bits i bit)
  walks d mask at_ := by
    rw [consumers] at at_
    by_cases same : d = c
    · rw [same, Function.update_self] at at_
      exact walks mask at_
    · rw [Function.update_of_ne same] at at_
      exact range.walks d mask at_
  scans d left at_ := by
    rw [consumers] at at_
    by_cases same : d = c
    · rw [same, Function.update_self] at at_
      exact scans left at_
    · rw [Function.update_of_ne same] at at_
      exact range.scans d left at_

theorem Move.inRange {s t : State P C} {a : Act P C} (move : Move s a t) (range : InRange s) :
    InRange t := by
  cases move with
  | stays | push | signal => exact ⟨range.bits, range.walks, range.scans⟩
  | mark p e at_ =>
    refine ⟨?_, range.walks, range.scans⟩
    intro i bit
    rw [set_bit _ _ _ (by omega)] at bit
    rcases Bool.or_eq_true_iff.mp bit with old | new
    · exact range.bits i old
    · have same := of_decide_eq_true new
      omega
  | begin c at_ some =>
    refine range.consumed (c := c) rfl (fun _ bit => bit) ?_ (by simp)
    intro mask same
    cases same
    exact range.bits _ (top_bit some)
  | fallBack c at_ none =>
    refine range.consumed (c := c) rfl (fun _ bit => bit) (by simp) ?_
    intro left same
    cases same
    exact le_rfl
  | pass c band at_ empty =>
    refine range.consumed (c := c) rfl (fun _ bit => bit) (by simp) ?_
    intro left same
    cases same
    have high := range.scans c (band + 1) at_
    omega
  | clear c band at_ =>
    refine range.consumed (c := c) rfl ?_ (by simp) (by simp)
    intro i bit
    rw [clear_bit] at bit
    exact (Bool.and_eq_true_iff.mp bit).1
  | acquire c | take c | miss c | exhaust c | giveBack c =>
    all_goals exact range.consumed (c := c) rfl (fun _ bit => bit) (by simp) (by simp)

theorem tried_band_in_range (acts : List (Act P C)) : ∀ t ∈ states next {} acts, ∀ c band,
    TriesAt (t.consumers c) band → band < 10 := by
  intro t reached c band tries
  have start : InRange ({} : State P C) := ⟨by simp, by simp, by simp⟩
  have range := invariant_reached (fun s a range => (next_moves s a).inRange range) start acts t
    reached
  rcases tries with ⟨mask, walking, same⟩ | scanning
  · rw [same]
    exact range.walks c mask walking
  · have high := range.scans c _ scanning
    omega

/-- The bit of a band is set when the band holds a message whose `fetch_or` is done. -/
def Covered (s : State P C) : Prop :=
  ∀ b, ∀ e ∈ s.queue.bands b, ¬ s.Unmarked e → s.nonEmpty.getLsbD b = true

/-- A `fetch_and` comes while no message of its band has had its `fetch_or`. -/
def ClearsDrained (s : State P C) : Act P C → Prop
  | .consumer c => ∀ b : Fin 10, s.consumers c = .fetchAnd b → ∀ e ∈ s.queue.bands b, s.Unmarked e
  | _ => True

instance (s : State P C) (a : Act P C) : Decidable (ClearsDrained s a) :=
  match a with
  | .consumer c => inferInstanceAs (Decidable (∀ b : Fin 10, s.consumers c = .fetchAnd b →
      ∀ e ∈ s.queue.bands b, s.Unmarked e))
  | .enqueue _ _ | .producer _ => inferInstanceAs (Decidable True)

theorem covered_start : Covered ({} : State P C) := by
  intro b e inside
  cases inside

theorem unmarked_update {f : Fin P → ProducerPc P} {p : Fin P} {pc : ProducerPc P} {e : Entry P}
    (other : f p ≠ .fetchOr e) (before : ∃ q, f q = .fetchOr e) :
    ∃ q, Function.update f p pc q = .fetchOr e := by
  obtain ⟨q, at_⟩ := before
  have different : q ≠ p := fun same => other (same ▸ at_)
  exact ⟨q, by rw [Function.update_of_ne different, at_]⟩

theorem unmarked_of_update {f : Fin P → ProducerPc P} {p : Fin P} {pc : ProducerPc P} {e : Entry P}
    (new : pc ≠ .fetchOr e) (after : ∃ q, Function.update f p pc q = .fetchOr e) :
    ∃ q, f q = .fetchOr e := by
  obtain ⟨q, at_⟩ := after
  by_cases same : q = p
  · rw [same, Function.update_self] at at_
    exact absurd at_ new
  · exact ⟨q, by rwa [Function.update_of_ne same] at at_⟩

theorem mem_enqueue {q : BandQueue 10 (Entry P)} {b c : Fin 10} {x e : Entry P}
    (inside : e ∈ (q.enqueue b x).bands c) : e ∈ q.bands c ∨ e = x ∧ c = b := by
  by_cases same : c = b
  · subst same
    simpa [BandQueue.enqueue] using inside
  · left
    simpa [BandQueue.enqueue, Function.update_of_ne same] using inside

theorem mem_taken {q : BandQueue 10 (Entry P)} {b c : Fin 10} {x e : Entry P} {rest : List (Entry P)}
    (found : q.bands b = x :: rest) (inside : e ∈ Function.update q.bands b rest c) :
    e ∈ q.bands c := by
  by_cases same : c = b
  · subst same
    rw [Function.update_self] at inside
    rw [found]
    exact List.mem_cons_of_mem x inside
  · rwa [Function.update_of_ne same] at inside

theorem Move.covered {s t : State P C} {a : Act P C} (move : Move s a t) (kept : Kept s)
    (drained : ClearsDrained s a) (covered : Covered s) : Covered t := by
  cases move with
  | push p msg e call at_ =>
    intro b x inside marked
    rcases mem_enqueue inside with old | ⟨same, -⟩
    · refine covered b x old ?_
      intro unmarked
      exact marked (unmarked_update (by simp [at_]) unmarked)
    · exact absurd ⟨p, by simp [same]⟩ marked
  | mark p e at_ =>
    intro b x inside marked
    dsimp only at inside ⊢
    rw [set_bit _ _ _ (by omega)]
    by_cases same : x = e
    · -- the band of the message is the one whose bit is set
      rw [← (kept.sorted inside).1, same]
      simp
    · have old : ¬ s.Unmarked x := by
        intro unmarked
        refine marked (unmarked_update ?_ unmarked)
        rw [at_]
        intro equal
        cases equal
        exact same rfl
      simp [covered b x inside old]
  | signal p e at_ =>
    intro b x inside marked
    refine covered b x inside ?_
    intro unmarked
    exact marked (unmarked_update (by simp [at_]) unmarked)
  | take c band e rest at_ found =>
    intro b x inside marked
    exact covered b x (mem_taken found inside) marked
  | clear c band at_ =>
    intro b x inside marked
    dsimp only at inside ⊢
    rw [clear_bit]
    have other : (b : Nat) ≠ band := by
      intro same
      exact marked (drained b (same ▸ at_) x inside)
    simp [covered b x inside marked, other]
  | stays | acquire | begin | fallBack | miss | pass | exhaust | giveBack => exact covered

/-- What a dequeue has seen of the messages that were complete when it began: none of them is
    hidden from its walk, and its scan of the bands starts only when all are gone. -/
structure Watched (s : State P C) : Prop where
  old : ∀ c, ∀ e ∈ s.before c, e ∈ s.pushed ∧ ¬ s.Unmarked e
  walk : ∀ c mask, s.consumers c = .walk mask → ∀ e ∈ s.before c, ∀ b, e ∈ s.queue.bands b →
    mask.getLsbD b = true
  scan : ∀ c left, s.consumers c = .scan left → ∀ e ∈ s.before c, ∀ b, e ∉ s.queue.bands b

theorem watched_start : Watched ({} : State P C) where
  old _ _ member := by cases member
  walk _ _ at_ := by cases at_
  scan _ _ at_ := by cases at_

theorem Watched.produced {s t : State P C} (watched : Watched s)
    (consumers : t.consumers = s.consumers) (before : t.before = s.before)
    (pushed : ∀ e ∈ s.pushed, e ∈ t.pushed)
    (marked : ∀ e ∈ s.pushed, t.Unmarked e → s.Unmarked e)
    (bands : ∀ e ∈ s.pushed, ∀ b, e ∈ t.queue.bands b → e ∈ s.queue.bands b) : Watched t where
  old c e member := by
    rw [before] at member
    obtain ⟨there, done⟩ := watched.old c e member
    exact ⟨pushed e there, fun unmarked => done (marked e there unmarked)⟩
  walk c mask at_ e member b inside := by
    rw [consumers] at at_
    rw [before] at member
    exact watched.walk c mask at_ e member b (bands e (watched.old c e member).1 b inside)
  scan c left at_ e member b inside := by
    rw [consumers] at at_
    rw [before] at member
    exact watched.scan c left at_ e member b (bands e (watched.old c e member).1 b inside)

theorem Watched.consumed {s t : State P C} (watched : Watched s) {c : Fin C} {pc : ConsumerPc}
    (consumers : t.consumers = Function.update s.consumers c pc) (before : t.before = s.before)
    (pushed : t.pushed = s.pushed) (producers : t.producers = s.producers)
    (bands : ∀ b e, e ∈ t.queue.bands b → e ∈ s.queue.bands b)
    (walk : ∀ mask, pc = .walk mask → ∀ e ∈ s.before c, ∀ b, e ∈ s.queue.bands b →
      mask.getLsbD b = true)
    (scan : ∀ left, pc = .scan left → ∀ e ∈ s.before c, ∀ b, e ∉ s.queue.bands b) : Watched t where
  old d e member := by
    rw [before] at member
    unfold State.Unmarked
    rw [pushed, producers]
    exact watched.old d e member
  walk d mask at_ e member b inside := by
    rw [consumers] at at_
    rw [before] at member
    by_cases same : d = c
    · subst same
      rw [Function.update_self] at at_
      exact walk mask at_ e member b (bands b e inside)
    · rw [Function.update_of_ne same] at at_
      exact watched.walk d mask at_ e member b (bands b e inside)
  scan d left at_ e member b inside := by
    rw [consumers] at at_
    rw [before] at member
    by_cases same : d = c
    · subst same
      rw [Function.update_self] at at_
      exact scan left at_ e member b (bands b e inside)
    · rw [Function.update_of_ne same] at at_
      exact watched.scan d left at_ e member b (bands b e inside)

theorem Watched.acquired {s : State P C} (watched : Watched s) (kept : Kept s) (c : Fin C) :
    Watched { s with sema := s.sema - 1, consumers := Function.update s.consumers c .load,
                     before := Function.update s.before c s.completed } where
  old d e member := by
    by_cases same : d = c
    · subst same
      dsimp only at member
      rw [Function.update_self] at member
      obtain ⟨present, closed⟩ := List.mem_filter.mp member
      obtain ⟨b, inside⟩ := mem_toList.mp present
      refine ⟨(kept.sorted inside).2, ?_⟩
      rintro ⟨p, at_⟩
      simp only [decide_eq_true_eq] at closed
      exact closed ⟨p, .inl at_⟩
    · dsimp only at member
      rw [Function.update_of_ne same] at member
      exact watched.old d e member
  walk d mask at_ e member b inside := by
    have other : d ≠ c := by
      intro same
      simp [same] at at_
    dsimp only at at_ member
    rw [Function.update_of_ne other] at at_ member
    exact watched.walk d mask at_ e member b inside
  scan d left at_ e member b inside := by
    have other : d ≠ c := by
      intro same
      simp [same] at at_
    dsimp only at at_ member
    rw [Function.update_of_ne other] at at_ member
    exact watched.scan d left at_ e member b inside

theorem Move.watched {s t : State P C} {a : Act P C} (move : Move s a t) (kept : Kept s)
    (covered : Covered s) (watched : Watched s) : Watched t := by
  cases move with
  | stays => exact watched
  | push p msg e call at_ =>
    have fresh : ∀ x ∈ s.pushed, x ≠ e := by
      intro x pushed same
      have low := kept.call_lt pushed
      simp [same, call] at low
    refine watched.produced rfl rfl ?_ ?_ ?_
    · intro x pushed
      exact List.mem_append_left _ pushed
    · intro x pushed unmarked
      refine unmarked_of_update ?_ unmarked
      intro equal
      cases equal
      exact fresh _ pushed rfl
    · intro x pushed b inside
      rcases mem_enqueue inside with old | ⟨same, -⟩
      · exact old
      · exact absurd same (fresh x pushed)
  | mark p e at_ =>
    exact watched.produced rfl rfl (fun _ pushed => pushed)
      (fun _ _ unmarked => unmarked_of_update (by simp) unmarked) fun _ _ _ inside => inside
  | signal p e at_ =>
    exact watched.produced rfl rfl (fun _ pushed => pushed)
      (fun _ _ unmarked => unmarked_of_update (by simp) unmarked) fun _ _ _ inside => inside
  | acquire c at_ token => exact watched.acquired kept c
  | begin c at_ some =>
    refine watched.consumed (c := c) rfl rfl rfl rfl (fun _ _ inside => inside) ?_ (by simp)
    intro mask same e member b inside
    cases same
    exact covered b e inside (watched.old c e member).2
  | fallBack c at_ none =>
    refine watched.consumed (c := c) rfl rfl rfl rfl (fun _ _ inside => inside) (by simp) ?_
    intro left same e member b inside
    have bit := covered b e inside (watched.old c e member).2
    simp [none] at bit
  | take c band e rest at_ found =>
    exact watched.consumed (c := c) rfl rfl rfl rfl (fun _ _ inside => mem_taken found inside)
      (by simp) (by simp)
  | pass c band at_ empty =>
    refine watched.consumed (c := c) rfl rfl rfl rfl (fun _ _ inside => inside) (by simp) ?_
    intro left same e member b inside
    exact watched.scan c (band + 1) at_ e member b inside
  | miss c | clear c | exhaust c | giveBack c =>
    all_goals
      exact watched.consumed (c := c) rfl rfl rfl rfl (fun _ _ inside => inside) (by simp) (by simp)

/-- What the consumer returns comes from no lower band than any message whose `enqueue` was
    complete when the dequeue began and which is still there. -/
def HighestFirst (s : State P C) : Act P C → Prop
  | .consumer c => ∀ r ∈ (consumerStep s c).returned.drop s.returned.length,
      ∀ e ∈ s.before c, ∀ b, e ∈ s.queue.bands b → b ≤ r.2.prio
  | _ => True

instance (s : State P C) (a : Act P C) : Decidable (HighestFirst s a) :=
  match a with
  | .consumer c => inferInstanceAs (Decidable (∀ r ∈ (consumerStep s c).returned.drop
      s.returned.length, ∀ e ∈ s.before c, ∀ b, e ∈ s.queue.bands b → b ≤ r.2.prio))
  | .enqueue _ _ | .producer _ => inferInstanceAs (Decidable True)

theorem highestFirst {s : State P C} (kept : Kept s) (watched : Watched s) (a : Act P C) :
    HighestFirst s a := by
  cases a with
  | enqueue p msg => exact trivial
  | producer p => exact trivial
  | consumer c =>
    intro r member e old b inside
    have move : Move s (.consumer c) (consumerStep s c) := consumerStep_moves s c
    generalize consumerStep s c = t at member move
    cases move with
    | take _ band x rest at_ found =>
      have same : r = (c, x) := by simpa [returnMsg] using member
      rw [same, (kept.sorted (b := band) (by simp [found])).1]
      rcases at_ with ⟨mask, walking, here⟩ | scanning
      · have low := bit_le_top (watched.walk c mask walking e old b inside)
        omega
      · exact absurd inside (watched.scan c _ scanning e old b)
    | stays | acquire | begin | fallBack | miss | clear | pass | exhaust | giveBack =>
      simp at member

/-- The mask part of the queue: what is there, what the bits say, what a dequeue has seen. -/
structure Masked (s : State P C) : Prop where
  kept : Kept s
  covered : Covered s
  watched : Watched s

theorem masked_start : Masked ({} : State P C) := ⟨kept_start, covered_start, watched_start⟩

theorem masked_next (s : State P C) (a : Act P C) (masked : Masked s) (drained : ClearsDrained s a) :
    Masked (next s a) :=
  have move := next_moves s a
  ⟨move.kept masked.kept, move.covered masked.kept drained masked.covered,
    move.watched masked.kept masked.covered masked.watched⟩

theorem mask_hides_no_message (acts : List (Act P C)) (drained : Meets next ClearsDrained {} acts) :
    (∀ t ∈ states next {} acts, ∀ b, ∀ e ∈ t.queue.bands b, ¬ t.Open e →
      t.nonEmpty.getLsbD b = true) ∧
    Meets next HighestFirst {} acts := by
  constructor
  · intro t reached b e inside closed
    refine (invariant_along masked_next masked_start drained t reached).covered b e inside ?_
    rintro ⟨p, at_⟩
    exact closed ⟨p, .inl at_⟩
  · exact meets_along masked_next (fun s a masked _ => highestFirst masked.kept masked.watched a)
      masked_start drained

def urgent : Message := { oid := 0, content := { headers := { priority := 9 }, body := .text [] } }

def ordinary : Message := { oid := 1, content := { body := .text [] } }

def enqueueWhole (msg : Message) : List (Act 1 1) :=
  [.enqueue 0 (some msg), .producer 0, .producer 0]

def dequeueOnce : List (Act 1 1) := [.consumer 0, .consumer 0, .consumer 0]

/-- The bit of band 9 outlives its message; the next dequeue finds the band empty, and a new
    message comes between its `try_dequeue` and its `fetch_and`. -/
def lateClear : List (Act 1 1) :=
  enqueueWhole urgent ++ dequeueOnce ++ enqueueWhole ordinary ++ dequeueOnce ++
    enqueueWhole urgent ++ [.consumer 0, .consumer 0, .consumer 0] ++
    enqueueWhole ordinary ++ dequeueOnce

theorem late_clear_hides_urgent :
    (∃ t ∈ states next {} lateClear, ∃ b, ∃ e ∈ t.queue.bands b, ¬ t.Open e ∧
      t.nonEmpty.getLsbD b = false) ∧
    ¬ Meets next HighestFirst {} lateClear := by
  decide

/-- The same without the message in between: the bit is cleared, and the other message taken. -/
def quietClear : List (Act 1 1) :=
  enqueueWhole urgent ++ dequeueOnce ++ enqueueWhole ordinary ++ dequeueOnce ++
    [.consumer 0, .consumer 0, .consumer 0]

theorem quiet_clear_hides_nothing :
    Meets next ClearsDrained ({} : State 1 1) quietClear ∧
    Meets next HighestFirst ({} : State 1 1) quietClear :=
  have drained : Meets next ClearsDrained ({} : State 1 1) quietClear := by
    decide
  ⟨drained, (mask_hides_no_message _ drained).2⟩

end TinyMqPriorityQueue
