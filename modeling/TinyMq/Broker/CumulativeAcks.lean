import TinyMq.Broker.InFlightChain

/-!
`acknowledgeOn` in a CLIENT_ACKNOWLEDGE session. The mode is for a message and all that
were received before it; the function unlinks one message and removes one record, in this
mode as in INDIVIDUAL_ACKNOWLEDGE.
-/
namespace TinyMqCumulativeAcks
open DelimitedText AssocLists LinkedChains Machines TombstoneLog TinyMqTom TinyMqMessage TinyMqStore
open TinyMqDestination TinyMqQueueRuns TinyMqPlaces TinyMqInversion TinyMqInFlightChain

def acked (x : Linked × (Address → List Message)) (o : Address) (m : Message) :
    Linked × (Address → List Message) :=
  nextOwed x (.acknowledge o (addressOf o m) m)

def storeOf (s : Linked) (o : Address) (c : Consumer) : Store Content :=
  (s.broker o.1).stores c.storage

/-- A live record that the storage can still reach. -/
def LiveAt (s : Store Content) (n : Nat) : Prop :=
  s.good = true ∧ ∃ e, s.log[n]? = some e ∧ e.removed = false

/-- The mode's promise for `m` with `before` and `after` around it in the order of receipt: the
    chain is what came after, the records of the others are gone and those of `after` are not. -/
structure Cumulative (x : Linked × (Address → List Message)) (o : Address) (c : Consumer)
    (before : List Message) (m : Message) (after : List Message) : Prop where
  chain : InFlight (acked x o m).1 o after
  removed : ∀ b ∈ before ++ [m], b.isPersistent = true → ∀ rec,
    (x.1.broker o.1).locate c b = some rec → ¬ LiveAt (storeOf (acked x o m).1 o c) rec.1
  live : ∀ a ∈ after, a.isPersistent = true → ∀ rec, (x.1.broker o.1).locate c a = some rec →
    LiveAt (storeOf x.1 o c) rec.1 → LiveAt (storeOf (acked x o m).1 o c) rec.1

/-- No message of `after` has the record of `m` for its own. -/
def OwnRecord (s : Linked) (o : Address) (c : Consumer) (m : Message) (after : List Message) : Prop :=
  m.isPersistent = true → ∀ rec, (s.broker o.1).locate c m = some rec →
    ∀ a ∈ after, a.isPersistent = true → ∀ rec', (s.broker o.1).locate c a = some rec' →
      LiveAt (storeOf s o c) rec'.1 → rec'.1 ≠ rec.1

section Records
variable {s : Store Content} {n i : Nat} {uuid : UUID}

theorem remove_dead : ¬ LiveAt (s.remove n uuid) n := by
  rintro ⟨good, e, entry, live⟩
  by_cases works : s.good = true
  · simp only [Store.remove, if_pos works, TombstoneLog.remove, List.getElem?_modify_eq] at entry
    obtain ⟨e', -, rfl⟩ := Option.map_eq_some_iff.mp entry
    cases live
  · simp only [Store.remove, if_neg works] at good
    exact works good

theorem remove_other (other : i ≠ n) : LiveAt (s.remove n uuid) i ↔ LiveAt s i := by
  unfold Store.remove LiveAt
  split
  · have same : (TombstoneLog.remove s.log n)[i]? = s.log[i]? := by
      simp [TombstoneLog.remove, Ne.symm other]
    simp only [same]
  · exact Iff.rfl

end Records

section Acknowledge
variable {x : Linked × (Address → List Message)} {o : Address} {c : Consumer} {m : Message}
  {before after : List Message}

theorem acked_owed (right : Right x) (mode : x.1.mode o ≠ some .SESSION_TRANSACTED)
    (split : x.2 o = before ++ m :: after) : (acked x o m).2 o = before ++ after := by
  have once := right.represents.once o
  rw [← show x.2 o = chainAt x.1.broker o from right.noted o, split] at once
  show acknowledged x.1 o o (addressOf o m) (x.2 o) = _
  rw [acknowledged, if_pos ⟨rfl, mode⟩, split]
  simp only [List.map_append, List.map_cons, List.nodup_append, List.nodup_cons] at once
  obtain ⟨-, ⟨absent, -⟩, apart⟩ := once
  have others : ∀ l : List Message, (∀ a ∈ l, addressOf o a ≠ addressOf o m) →
      l.filter (fun a => (o.1, a.oid) ≠ addressOf o m) = l := by
    intro l differ
    rw [List.filter_eq_self]
    intro a member
    exact decide_eq_true (differ a member)
  rw [List.filter_append, List.filter_cons_of_neg (by simp [addressOf]), others, others]
  · intro a member same
    exact absent (List.mem_map.mpr ⟨a, member, same⟩)
  · intro a member same
    exact apart (addressOf o a) (List.mem_map_of_mem member) (addressOf o m) (by simp) same

theorem acked_store (object : get (x.1.broker o.1).objects o.2 = some c)
    (mode : c.mode = .CLIENT_ACKNOWLEDGE) :
    storeOf (acked x o m).1 o c =
      if m.isPersistent then
        match (x.1.broker o.1).locate c m with
        | none => storeOf x.1 o c
        | some rec => (storeOf x.1 o c).remove rec.1 rec.2
      else storeOf x.1 o c := by
  have own : x.1.found o.1 (addressOf o m) m = m := by simp [Linked.found, addressOf]
  have done : (acked x o m).1.broker o.1 = (x.1.broker o.1).acknowledgeOn o.2 m := by
    show (x.1.acknowledgeOn o (addressOf o m) m).broker o.1 = _
    unfold Linked.acknowledgeOn
    simp only [object, own, mode, reduceCtorEq, if_false, Linked.onDestination, Function.update_self]
  unfold storeOf
  rw [done]
  unfold Destination.acknowledgeOn
  simp only [object, mode, reduceCtorEq, if_false]
  split
  · split
    · rename_i none_
      have here : (x.1.broker o.1).locate c m = none := none_
      rw [here]
      rfl
    · rename_i rec found
      have here : (x.1.broker o.1).locate c m = some rec := found
      rw [here]
      simp [Destination.removeRecord, Destination.setObject]
  · rfl

theorem inFlight_unique {s : Linked} {a b : List Message} (one : InFlight s o a)
    (other : InFlight s o b) : a = b := by
  obtain ⟨s₁, r₁, done, handed, -⟩ := one.recovered calm
  obtain ⟨s₂, r₂, done', handed', -⟩ := other.recovered calm
  rw [done] at done'
  cases done'
  exact handed.symm.trans handed'

theorem cumulative_right_iff (right : Right x) (object : get (x.1.broker o.1).objects o.2 = some c)
    (mode : c.mode = .CLIENT_ACKNOWLEDGE) (split : x.2 o = before ++ m :: after) :
    InFlight (acked x o m).1 o (before ++ after) ∧
      (Cumulative x o c before m after ↔ before = [] ∧ OwnRecord x.1 o c m after) := by
  have plain : x.1.mode o ≠ some .SESSION_TRANSACTED := by simp [Linked.mode, object, mode]
  have chain : InFlight (acked x o m).1 o (before ++ after) := by
    rw [← acked_owed right plain split]
    exact (next_right x (.acknowledge o (addressOf o m) m) right).inFlight o
  have store := @acked_store x o c m object mode
  refine ⟨chain, ?_, ?_⟩
  · intro cumulative
    have lists := inFlight_unique chain cumulative.chain
    have empty : before = [] := by
      have lengths := congrArg List.length lists
      rw [List.length_append] at lengths
      exact List.length_eq_zero_iff.mp (by omega)
    refine ⟨empty, ?_⟩
    intro persistent rec located a member lasting rec' located' live same
    have still := cumulative.live a member lasting rec' located' live
    rw [store, if_pos persistent, located, same] at still
    exact remove_dead still
  · rintro ⟨rfl, own⟩
    rw [List.nil_append] at chain
    refine ⟨chain, ?_, ?_⟩
    · intro b member persistent rec located
      obtain rfl : b = m := by simpa using member
      rw [store, if_pos persistent, located]
      exact remove_dead
    · intro a member lasting rec' located' live
      rw [store]
      split
      · rename_i persistent
        split
        · exact live
        · rename_i rec located
          exact (remove_other (own persistent rec located a member lasting rec' located' live)).mpr
            live
      · exact live

end Acknowledge

def twoReceived : List Act :=
  [.on 0 (.createDefaultConsumer 0 .CLIENT_ACKNOWLEDGE),
    .on 0 (.createConsumer calm 1 .CLIENT_ACKNOWLEDGE none),
    .on 0 (.createProducer 5 .CLIENT_ACKNOWLEDGE),
    .on 0 (.send calm 5 [] (letter 0 7)), .on 0 (.send calm 5 [] (letter 0 8)),
    .on 0 (.recv calm 1 0), .on 0 (.recv calm 1 0)]

def twoState : Linked × (Address → List Message) := twoReceived.foldl nextOwed unusedQueues

end TinyMqCumulativeAcks
