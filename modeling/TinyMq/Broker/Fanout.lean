import TinyMq.Broker.Destination

/-!
How a topic hands one message to each of its subscribers. A copy is compared up
to its object identity and its record location: these differ between a plain
and a transacted publish, everything a subscriber sees does not.
-/
namespace TinyMqFanout
open DelimitedText AssocLists BandQueues TinyMqTom TinyMqMessage TinyMqStore TinyMqDestination
open TinyMqTransactionBuffer

def strip (m : Message) : Message := { m with oid := 0, location := none }

/-- The copy `preparePush` makes of a message for a consumer. -/
def sentCopy (env : Env) (number : Int) (cid : Nat) (m : Message) : Message :=
  strip (pushCopy env 0 number cid m).refreshCachedStorageBytes

/-- No delay: the message is visible as soon as it is published. -/
def Immediate (m : Message) : Prop :=
  m.content.headers.deliveryTime = 0 ∧ m.pendingDeliveryDelay = 0

def Subscribed (d : Destination) (cid : Nat) : Prop :=
  ∃ c, get d.objects cid = some c ∧ c.selector = none ∧ c.queue = .own cid

def view (d : Destination) (cid : Nat) : QueueT := (d.queues (.own cid)).map strip

@[simp] theorem strip_strip (m : Message) : strip (strip m) = strip m := rfl

@[simp] theorem strip_copy (m : Message) (oid : Nat) : strip (m.copy oid) = strip m := rfl

@[simp] theorem strip_band (m : Message) : (strip m).band = m.band := rfl

@[simp] theorem strip_sentCopy (env : Env) (number : Int) (cid : Nat) (m : Message) :
    strip (sentCopy env number cid m) = sentCopy env number cid m := rfl

theorem immediate_strip {m : Message} : Immediate (strip m) ↔ Immediate m := Iff.rfl

@[simp] theorem pushCopy_persistent (env : Env) (oid : Nat) (number : Int) (cid : Nat)
    (m : Message) : (pushCopy env oid number cid m).isPersistent = m.isPersistent := rfl

theorem immediate_sentCopy {env : Env} {number : Int} {cid : Nat} {m : Message} :
    Immediate (sentCopy env number cid m) ↔ Immediate m := by
  unfold sentCopy Message.refreshCachedStorageBytes
  split <;> exact Iff.rfl

theorem sentCopy_persistent (env : Env) (number : Int) (cid oid : Nat) {m : Message}
    (persistent : m.isPersistent = true) (location : Option Nat) :
    strip { pushCopy env oid number cid m with
      cachedStorageBytes := some (pushCopy env oid number cid m).content,
      location := location } = sentCopy env number cid m := by
  unfold sentCopy Message.refreshCachedStorageBytes
  rw [pushCopy_persistent, if_pos persistent]
  rfl

theorem sentCopy_volatile (env : Env) (number : Int) (cid oid : Nat) {m : Message}
    (volatile : ¬ m.isPersistent = true) :
    strip (pushCopy env oid number cid m) = sentCopy env number cid m := by
  unfold sentCopy Message.refreshCachedStorageBytes
  rw [pushCopy_persistent, if_neg volatile]
  rfl

theorem preparePush_staged (env : Env) (d : Destination) (cid : Nat) (c : Consumer) (number : Int)
    {t : Text} (transacted : t ≠ []) (m : Message) :
    ∃ buffer x, d.preparePush env cid c number t m =
        ({ d with nextOid := d.nextOid + 1, buffer := buffer }, x) ∧
      strip x = sentCopy env number cid m := by
  unfold Destination.preparePush
  simp only [pushCopy_persistent, if_pos transacted]
  split
  · rename_i persistent
    exact ⟨_, _, rfl, sentCopy_persistent env number cid d.nextOid persistent _⟩
  · rename_i volatile
    exact ⟨d.buffer, _, rfl, sentCopy_volatile env number cid d.nextOid volatile⟩

theorem preparePush_plain (env : Env) (d : Destination) (cid : Nat) (c : Consumer) (number : Int)
    (m : Message) :
    ∃ stores x, d.preparePush env cid c number [] m =
        ({ d with nextOid := d.nextOid + 1, stores := stores }, x) ∧
      strip x = sentCopy env number cid m := by
  unfold Destination.preparePush Destination.appendRecord
  simp only [pushCopy_persistent, ne_eq, not_true_eq_false, if_false]
  split
  · rename_i persistent
    exact ⟨_, _, rfl, sentCopy_persistent env number cid d.nextOid persistent _⟩
  · rename_i volatile
    exact ⟨d.stores, _, rfl, sentCopy_volatile env number cid d.nextOid volatile⟩

theorem enqueueOrSchedule_immediate (env : Env) (d : Destination) (q : QueueId) {m : Message}
    (now : m.content.headers.deliveryTime = 0) : d.enqueueOrSchedule env q m = d.enqueue q m := by
  have kept : clampFuture env m = m := by simp [clampFuture, now]
  simp [Destination.enqueueOrSchedule, kept, now]

/-- One message has reached each subscriber of the list, and nothing else moved. -/
structure Delivered (d d' : Destination) (l : List Nat) (f : Nat → Message) : Prop where
  frame : ∃ n stores queues, d' = { d with nextOid := n, stores := stores, queues := queues }
  got : ∀ cid ∈ l, view d' cid = (view d cid).enqueue (f cid).band (f cid)
  rest : ∀ cid, cid ∉ l → view d' cid = view d cid

theorem delivered_enqueue (d : Destination) {n : Nat} {stores : StorageId → Store Content}
    (cid : Nat) {f : Nat → Message} {x : Message} (same : strip x = f cid) :
    Delivered d (Destination.enqueue { d with nextOid := n, stores := stores } (.own cid) x) [cid]
      f where
  frame := ⟨n, stores, _, rfl⟩
  got := by
    intro i member
    rw [List.mem_singleton.mp member, ← same]
    simp [view, Destination.enqueue, Destination.setQueue]
  rest := by
    intro i other
    have apart : QueueId.own i ≠ .own cid := by
      intro equal
      injection equal with equal
      exact other (by simp [equal])
    simp [view, Destination.enqueue, Destination.setQueue, Function.update_of_ne apart]

theorem delivered_fold {g : Destination → Nat → Destination} {f : Nat → Message} {l : List Nat}
    (nodup : l.Nodup)
    (one : ∀ d cid, cid ∈ l → Subscribed d cid → Delivered d (g d cid) [cid] f)
    {d : Destination} (subscribed : ∀ cid ∈ l, Subscribed d cid) :
    Delivered d (l.foldl g d) l f := by
  induction l generalizing d with
  | nil => exact ⟨⟨_, _, _, rfl⟩, by simp, fun _ _ => rfl⟩
  | cons cid l ih =>
    obtain ⟨absent, nodup⟩ := List.nodup_cons.mp nodup
    have first := one d cid (by simp) (subscribed cid (by simp))
    obtain ⟨n, stores, queues, shape⟩ := first.frame
    have still : ∀ i ∈ l, Subscribed (g d cid) i := by
      intro i member
      rw [shape]
      exact subscribed i (List.mem_cons_of_mem cid member)
    have later := ih nodup (fun d i member => one d i (List.mem_cons_of_mem cid member)) still
    obtain ⟨n', stores', queues', shape'⟩ := later.frame
    rw [List.foldl_cons]
    refine ⟨⟨n', stores', queues', by rw [shape', shape]⟩, ?_, ?_⟩
    · intro i member
      rcases List.mem_cons.mp member with here | there
      · subst here
        rw [later.rest i absent]
        exact first.got i (by simp)
      · have apart : i ∉ [cid] := by
          intro equal
          rw [List.mem_singleton.mp equal] at there
          exact absent there
        rw [later.got i there, first.rest i apart]
    · intro i outside
      rw [later.rest i fun inside => outside (List.mem_cons_of_mem cid inside)]
      exact first.rest i fun equal => outside (by simp [List.mem_singleton.mp equal])

theorem persistOffline_frame (env : Env) (d : Destination) (m : Message) :
    ∃ stores, d.persistOffline env m = { d with stores := stores } := by
  have loop : ∀ (subs : Assoc Text DurableSubState) (d : Destination), ∃ stores,
      subs.foldl (fun d entry =>
        if entry.2.active.isSome then d
        else if accepts entry.2.selector m then d.persistToOfflineSub env m entry
        else d) d = { d with stores := stores } := by
    intro subs
    induction subs with
    | nil => exact fun d => ⟨d.stores, rfl⟩
    | cons entry subs ih =>
      intro d
      rw [List.foldl_cons]
      split
      · exact ih d
      · split
        · obtain ⟨stores, shape⟩ := ih (d.persistToOfflineSub env m entry)
          exact ⟨stores, by rw [shape]; rfl⟩
        · exact ih d
  exact loop d.durableSubs d

theorem push_delivers (env : Env) (number : Int) (pid : Nat) {m : Message} (now : Immediate m)
    (d : Destination) (cid : Nat) (subscribed : Subscribed d cid) :
    Delivered d (Destination.push env number pid [] m d cid) [cid]
      fun cid => sentCopy env number cid m := by
  obtain ⟨c, object, open_, queue⟩ := subscribed
  obtain ⟨stores, x, prepared, same⟩ := preparePush_plain env d cid c number m
  have soon : Immediate x := by
    rw [← immediate_strip, same, immediate_sentCopy]
    exact now
  have reached : Destination.push env number pid [] m d cid =
      Destination.enqueue { d with nextOid := d.nextOid + 1, stores := stores } (.own cid) x := by
    simp [Destination.push, object, accepts, open_, prepared, soon.1, queue]
  rw [reached]
  exact delivered_enqueue d cid same

theorem deliverTo_delivers (env : Env) {m : Message} (now : Immediate m) (d : Destination)
    (cid : Nat) (subscribed : Subscribed d cid) :
    Delivered d (Destination.deliverTo env m d cid) [cid] fun _ => strip m := by
  obtain ⟨c, object, _, queue⟩ := subscribed
  have reached : Destination.deliverTo env m d cid =
      Destination.enqueue { d with nextOid := d.nextOid + 1, stores := d.stores } (.own cid)
        (m.copy d.nextOid) := by
    simp only [Destination.deliverTo, object, queue]
    exact enqueueOrSchedule_immediate env _ _ now.1
  rw [reached]
  exact delivered_enqueue d cid (strip_copy m d.nextOid)

end TinyMqFanout
