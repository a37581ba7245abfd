import TinyMq.Lib.Machines
import TinyMq.Broker.QueueRuns

/-!
Receipt in the mode AUTO_ACKNOWLEDGE. `recv` keeps no trace of the message and
leaves its record in the storage, so that only the replay of a later consumer can
bring the message back; a message object made after the receipt tells that it did.
-/
namespace TinyMqAutoAcknowledge
open DelimitedText AssocLists Machines TombstoneLog TinyMqTom TinyMqMessage TinyMqStore
open TinyMqDestination TinyMqHolders TinyMqQueueRuns

/-- A queue with what its AUTO_ACKNOWLEDGE consumers got: the uuid, and the number of
    objects made until then. -/
structure Watched where
  queue : Destination
  taken : List (UUID × Nat) := []

def receipt (d : Destination) (call : Call) : List (UUID × Nat) :=
  match call, (step d call).2 with
  | .recv _ cid _, some m =>
    match get d.objects cid with
    | none => []
    | some c =>
      if c.mode = .AUTO_ACKNOWLEDGE ∧ m.isPersistent then [(m.uuid, (step d call).1.nextOid)] else []
  | _, _ => []

def next (w : Watched) (call : Call) : Watched :=
  ⟨(step w.queue call).1, w.taken ++ receipt w.queue call⟩

/-- No message object made after the receipt brings the message back. -/
def Once (w : Watched) (call : Call) : Prop :=
  ∀ m, (step w.queue call).2 = some m → ∀ n, (m.uuid, n) ∈ w.taken → m.oid < n

def Untaken (w : Watched) (uuid : UUID) : Prop := ∀ n, (uuid, n) ∉ w.taken

/-- What is sent, or given up by another queue, is not a message taken before. -/
def Asked (w : Watched) : Call → Prop
  | .send env _ _ m | .sendWith env _ _ m _ =>
    ∀ cid ∈ w.queue.targets, Untaken w (sentUuid env w.queue.messageCounter cid m)
  | .acceptDeadLetter _ m => Untaken w m.uuid
  | _ => True

/-- A consumer is created only while the storage keeps no record of a message taken before. -/
def Forgotten (w : Watched) : Call → Prop
  | .createConsumer _ _ _ _ =>
    w.queue.queueMade = true → ∀ x ∈ (w.queue.stores .shared).scan, Untaken w x.1.key
  | _ => True

/-- Every message in memory that was taken before is an object of that time. -/
structure Old (w : Watched) : Prop where
  ok : CleanQueue w.queue
  before : ∀ m ∈ held w.queue, ∀ n, (m.uuid, n) ∈ w.taken → m.oid < n

theorem arrivals_untaken {w : Watched} {call : Call} (asked : Asked w call)
    (forgotten : Forgotten w call) : ∀ u ∈ arrivals w.queue call, Untaken w u := by
  intro u arrived
  have sent : ∀ env m, u ∈ ((w.queue.targets.map fun cid =>
      sentUuid env w.queue.messageCounter cid m : List UUID) : Multiset UUID) →
      (∀ cid ∈ w.queue.targets, Untaken w (sentUuid env w.queue.messageCounter cid m)) →
      Untaken w u := by
    intro env m inside new
    obtain ⟨cid, target, same⟩ := List.mem_map.mp (Multiset.mem_coe.mp inside)
    rw [← same]
    exact new cid target
  cases call with
  | createConsumer env id mode selector =>
    by_cases made : w.queue.queueMade
    · rw [show arrivals w.queue (.createConsumer env id mode selector) =
        (((w.queue.stores .shared).scan.map fun x => x.1.key : List UUID) : Multiset UUID) from
          if_pos made] at arrived
      obtain ⟨x, live, same⟩ := List.mem_map.mp (Multiset.mem_coe.mp arrived)
      rw [← same]
      exact forgotten made x live
    · rw [show arrivals w.queue (.createConsumer env id mode selector) = 0 from if_neg made]
        at arrived
      exact absurd arrived (Multiset.notMem_zero u)
  | send env pid t m => exact sent env m arrived asked
  | sendWith env pid t m opts => exact sent env m arrived asked
  | acceptDeadLetter env m =>
    rw [Multiset.mem_singleton.mp arrived]
    exact asked
  | _ => exact absurd arrived (Multiset.notMem_zero u)

theorem step_tags {d : Destination} (ok : CleanQueue d) (call : Call) {m : Message}
    (member : m ∈ held (step d call).1) :
    m.uuid ∈ arrivals d call ∨ tag m ∈ (held d).map tag := by
  obtain ⟨extra, moves, made, uuids⟩ := step_moves ok.queue ok.clean call
  have tags := (moves.tags ok.clean fun x inside => (made x inside).1).1
  have known := Multiset.mem_of_le tags (Multiset.mem_map_of_mem tag member)
  rcases Multiset.mem_add.mp known with new | old
  · obtain ⟨x, inside, same⟩ := Multiset.mem_map.mp new
    have arrived := Multiset.mem_of_le uuids (Multiset.mem_map_of_mem Message.uuid inside)
    rw [show m.uuid = x.uuid from (congrArg Prod.snd same).symm]
    exact Or.inl arrived
  · exact Or.inr old

theorem Old.tagged {w : Watched} (old : Old w) {m : Message} (known : tag m ∈ (held w.queue).map tag)
    {n : Nat} (taken : (m.uuid, n) ∈ w.taken) : m.oid < n := by
  obtain ⟨x, inside, same⟩ := Multiset.mem_map.mp known
  have uuid : x.uuid = m.uuid := congrArg Prod.snd same
  have oid : x.oid = m.oid := congrArg Prod.fst same
  rw [← oid]
  exact old.before x inside n (by rw [uuid]; exact taken)

theorem receipt_now {d : Destination} {call : Call} {u : UUID} {n : Nat}
    (member : (u, n) ∈ receipt d call) : n = (step d call).1.nextOid := by
  unfold receipt at member
  split at member
  · split at member
    · cases member
    · split at member
      · exact congrArg Prod.snd (List.mem_singleton.mp member)
      · cases member
  · cases member

theorem step_old (w : Watched) (call : Call) (old : Old w)
    (allowed : Asked w call ∧ Forgotten w call) : Old (next w call) := by
  have ok := step_clean old.ok call
  refine ⟨ok, ?_⟩
  intro m member n taken
  rcases List.mem_append.mp taken with earlier | now
  · rcases step_tags old.ok call member with arrived | known
    · exact absurd earlier (arrivals_untaken allowed.1 allowed.2 m.uuid arrived n)
    · exact old.tagged known earlier
  · rw [receipt_now now]
    exact ok.clean.below m member

theorem step_once (w : Watched) (call : Call) (old : Old w) : Once w call := by
  intro m given n taken
  cases call with
  | recv env cid patience =>
    exact old.tagged ((recv_received env cid patience old.ok.clean).given m given) taken
  | _ => cases given

/-- In a run that creates no consumer over the record of a message taken before, no later
    consumer, with or without a restart, makes `recv` return such a message again. -/
theorem auto_acknowledge_consumes {d : Destination} (started : Started d) {calls : List Call}
    (meets : Meets next (fun w call => Asked w call ∧ Forgotten w call) ⟨d,[]⟩ calls) :
    Meets next Once ⟨d,[]⟩ calls := by
  refine meets_along step_old (fun w call old _ => step_once w call old) ?_ meets
  refine ⟨started.clean, ?_⟩
  intro m member
  rw [started.held] at member
  exact absurd member (Multiset.notMem_zero m)

def mailed : List Call :=
  [.createDefaultConsumer 0 .AUTO_ACKNOWLEDGE, .createConsumer calm 1 .AUTO_ACKNOWLEDGE none,
    .createProducer 5 .AUTO_ACKNOWLEDGE, .send calm 5 [] (letter 0 7), .recv calm 1 0]

def reopened : List Call :=
  [.restart calm, .createDefaultConsumer 2 .AUTO_ACKNOWLEDGE,
    .createConsumer calm 3 .AUTO_ACKNOWLEDGE none, .recv calm 3 0]

theorem auto_acknowledge_consumes_removed :
    Meets next Once ⟨{ type := .Queue },[]⟩ (mailed ++ .acknowledgeOn 1 (letter 0 7) :: reopened) := by
  refine auto_acknowledge_consumes newQueue_started ?_
  refine ⟨⟨trivial, trivial⟩, ⟨trivial, ?_⟩, ⟨trivial, trivial⟩, ⟨?_, trivial⟩,
    ⟨trivial, trivial⟩, ⟨trivial, trivial⟩, ⟨trivial, trivial⟩, ⟨trivial, trivial⟩, ⟨trivial, ?_⟩,
    ⟨trivial, trivial⟩, trivial⟩
  · intro _ x live
    cases live
  · intro cid _ n taken
    cases taken
  · intro _ x live
    cases live

/- Nothing removes the record of a message that an AUTO_ACKNOWLEDGE consumer received. -/
theorem auto_acknowledge_returned_again : Meets next Asked ⟨{ type := .Queue },[]⟩ (mailed ++ reopened) ∧
    ¬ Meets next Once ⟨{ type := .Queue },[]⟩ (mailed ++ reopened) := by
  refine ⟨⟨trivial, trivial, trivial, ?_, trivial, trivial, trivial, trivial, trivial, trivial⟩, ?_⟩
  · intro cid _ n taken
    cases taken
  · intro once
    have last : Once ((mailed ++ reopened.take 3).foldl next ⟨{ type := .Queue },[]⟩)
        (.recv calm 3 0) := once.2.2.2.2.2.2.2.2.1
    have sooner := last _ rfl 1 (by decide)
    revert sooner
    decide

end TinyMqAutoAcknowledge
