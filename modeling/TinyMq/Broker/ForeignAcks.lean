import TinyMq.Broker.InFlightChain
import TinyMq.Broker.StoreBacking
import TinyMq.Storage.StrayRemovals

/-!
An acknowledgement on the wrong consumer. `acknowledgeOn` unlinks the message from
the chain of its owner only, but the removal of its record asks for no owner: it
goes to the storage of the consumer that was called, at the byte offset that the
message carries, whatever is there. So the storages are those on disk here, next
to the destinations, and a batch holds records. Destinations are named by numbers,
consumers by their destination and their number there.
-/
namespace TinyMqForeignAcks
open ByteStrings AssocLists BandQueues Machines TombstoneLog TinyMqTom TinyMqStorage TinyMqLogImage
open TinyMqRefinement TinyMqStrayRemovals TinyMqMessage TinyMqStore TinyMqStoreBacking
open TinyMqDestination TinyMqFrames TinyMqQueueRuns TinyMqPlaces TinyMqInversion
open TinyMqInFlightChain
variable {encode : Content → Payload}

/-- The storage on disk holds the records of the store, or its stream has failed. -/
structure Stored (encode : Content → Payload) (s : Store Content) (b : Storage) : Prop where
  filed : s.good = true → Filed b (image encode s.log)
  failed : s.good = false → Failed b

structure System where
  world : Exchange
  files : Nat → StorageId → Storage
  batches : Nat × Nat → List Record

def System.setFile (x : System) (did : Nat) (sid : StorageId) (b : Storage) : System :=
  { x with files := Function.update x.files did (Function.update (x.files did) sid b) }

/-- The record of a message: at its cached offset, else the one of its uuid in the index. -/
def resolve (offset : Nat) (b : Storage) (m : Message) : Record :=
  match m.location with
  | some _ => ⟨firstTom,offset,{ uuid := m.uuid }⟩
  | none => b.record m.uuid

def flushPendingAcks (b : Storage) (batch : List Record) : Storage :=
  batch.foldl (fun b r => (b.remove r none).1) b

/-- `acknowledgeOn` of the consumer `j`; `offset` is the cached one of the message. -/
def acknowledgeOn (x : System) (j : Nat × Nat) (m : Message) (offset : Nat) : System :=
  match get (x.world j.1).objects j.2 with
  | none => x
  | some c =>
    if c.mode = .SESSION_TRANSACTED then x
    else
      let d := (x.world j.1).setObject j.2 { c with inFlight := c.inFlight.filter (·.oid ≠ m.oid) }
      let x := { x with world := Function.update x.world j.1 d }
      if m.isPersistent then
        let b := x.files j.1 c.storage
        let r := resolve offset b m
        if r.tomId = noTom then x
        else if c.mode = .DUPS_OK_ACKNOWLEDGE then
          let batch := x.batches j ++ [r]
          if kDupsOkBatch ≤ batch.length then
            { x.setFile j.1 c.storage (flushPendingAcks b batch) with
              batches := Function.update x.batches j [] }
          else { x with batches := Function.update x.batches j batch }
        else x.setFile j.1 c.storage (b.remove r none).1
      else x

/-- The message of consumer `i` as consumer `j` finds it: an object of another destination
    is none of its own. -/
def foundBy (w : Exchange) (i j : Nat × Nat) (m : Message) : Message :=
  { m with oid := if i.1 = j.1 then m.oid else (w j.1).nextOid }

/-- All chains, all batches and the live records of every storage are as before. -/
structure Untouched (x x' : System) : Prop where
  chains : ∀ did cid, chainOf (get (x'.world did).objects cid) =
    chainOf (get (x.world did).objects cid)
  batches : x'.batches = x.batches
  records : ∀ did sid, found (x'.files did sid) = found (x.files did sid)

/-- The acknowledgement finds nothing to remove: the message is not persistent, or it has no
    record, or the removal writes where the record loops do not miss it. -/
def Harmless (encode : Content → Payload) (s : Store Content) (c : Consumer) (m : Message)
    (r : Record) : Prop :=
  m.isPersistent = true → r.tomId ≠ noTom →
    c.mode ≠ .DUPS_OK_ACKNOWLEDGE ∧ (s.good = true → Clean (image encode s.log) r)

section Files

/-- A storage on disk for every store. -/
def fileOf (encode : Content → Payload) (s : Store Content) : Storage :=
  ⟨firstTom,[⟨firstTom,(logBytes (image encode s.log)).length,⟨logBytes (image encode s.log),s.good⟩⟩],
    fun _ => none⟩

theorem fileOf_stored (encode : Content → Payload) (s : Store Content) :
    Stored encode s (fileOf encode s) where
  filed good := .inr ⟨_, rfl, rfl, rfl, good, rfl, rfl, firstTom_real⟩
  failed bad := ⟨_, rfl, rfl, rfl, bad⟩

theorem stored_same_iff {s : Store Content} {b : Storage} (stored : Stored encode s b) (r : Record) :
    found (b.remove r none).1 = found b ↔ (s.good = true → Clean (image encode s.log) r) := by
  cases good : s.good with
  | true =>
    rw [remove_same_iff (stored.filed good) r]
    simp
  | false =>
    obtain ⟨t, one, _, _, bad⟩ := stored.failed good
    have same : found (b.remove r none).1 = found b := by
      rw [found_single (remove_failed one bad r), found_single one]
    exact iff_of_true same (by simp)

theorem stored_removed {s : Store Content} {b : Storage} (stored : Stored encode s b) {n : Nat}
    (inside : n < s.log.length) (uuid : UUID) :
    Stored encode (s.remove n uuid)
      (b.remove ⟨firstTom,offsetOf (image encode s.log) n,{ uuid := uuid }⟩ none).1 := by
  cases good : s.good with
  | true =>
    have here : s.log[n]? = some s.log[n] := List.getElem?_eq_getElem inside
    obtain ⟨before, after, split, length⟩ := split_at here
    generalize s.log[n] = e at here split
    have filed := stored.filed good
    rw [split, image_split] at filed
    have marked : TombstoneLog.remove s.log n = before ++ { e with removed := true } :: after := by
      rw [split, ← length, remove_split]
    have removed := removed_filed (r := ⟨firstTom,offsetOf (image encode s.log) n,{ uuid := uuid }⟩)
      filed rfl (by rw [← length, split, offset_split]) rfl
    have images : image encode before ++ { entryOf encode e with removed := true } ::
        image encode after = image encode (TombstoneLog.remove s.log n) := by
      rw [marked, image_split]
      rfl
    rw [images] at removed
    have store : s.remove n uuid = { s with
        log := TombstoneLog.remove s.log n, index := Function.update s.index uuid none } := if_pos good
    rw [store]
    exact ⟨fun _ => removed, fun bad => absurd (good.symm.trans bad) (by decide)⟩
  | false =>
    have kept : s.remove n uuid = s := by simp [Store.remove, good]
    rw [kept]
    refine ⟨fun works => absurd (good.symm.trans works) (by decide), fun _ => ?_⟩
    obtain ⟨t, one, current, id, bad⟩ := stored.failed good
    exact ⟨t, remove_failed one bad _, (remove_current b _).trans current, id, bad⟩

end Files

section Acknowledge
variable {x : System} {j : Nat × Nat} {c : Consumer} {m : Message} {offset : Nat}

theorem unlink_foreign (foreign : ∀ y ∈ c.inFlight, y.oid ≠ m.oid) :
    c.inFlight.filter (·.oid ≠ m.oid) = c.inFlight :=
  List.filter_eq_self.mpr fun y inside => by simpa using foreign y inside

/- The chains are those that the call on the destination leaves. -/
theorem acknowledgeOn_chains (x : System) (j : Nat × Nat) (m : Message) (offset cid : Nat) :
    chainOf (get ((acknowledgeOn x j m offset).world j.1).objects cid) =
      chainOf (get ((x.world j.1).acknowledgeOn j.2 m).objects cid) := by
  cases object : get (x.world j.1).objects j.2 with
  | none => simp [acknowledgeOn, Destination.acknowledgeOn, object]
  | some c =>
    rw [acknowledgeOn_chain _ _ object]
    unfold acknowledgeOn
    rw [object]
    dsimp only
    by_cases transacted : c.mode = .SESSION_TRANSACTED
    · simp [transacted]
    · have unlinked : chainOf (get ((x.world j.1).setObject j.2
          { c with inFlight := c.inFlight.filter (·.oid ≠ m.oid) }).objects cid) =
          if cid = j.2 ∧ c.mode ≠ .SESSION_TRANSACTED then
            (chainOf (get (x.world j.1).objects cid)).filter (·.oid ≠ m.oid)
          else chainOf (get (x.world j.1).objects cid) := by
        rw [TinyMqInFlightChain.setObject_chain]
        by_cases here : cid = j.2
        · simp [here, transacted, object, chainOf]
        · simp [here]
      rw [if_neg transacted, ← unlinked]
      unfold System.setFile
      split
      · split
        · simp only [Function.update_self]
        · split
          · split
            · simp only [Function.update_self]
            · simp only [Function.update_self]
          · simp only [Function.update_self]
      · simp only [Function.update_self]

/- At the offset of a record of its own storage, the storage on disk follows the store. -/
theorem acknowledgeOn_stored (object : get (x.world j.1).objects j.2 = some c)
    (plain : c.mode ≠ .SESSION_TRANSACTED) (eager : c.mode ≠ .DUPS_OK_ACKNOWLEDGE)
    (persistent : m.isPersistent = true) {n : Nat} (location : m.location = some n)
    (inside : n < ((x.world j.1).stores c.storage).log.length)
    (stored : Stored encode ((x.world j.1).stores c.storage) (x.files j.1 c.storage)) :
    Stored encode (((x.world j.1).acknowledgeOn j.2 m).stores c.storage)
      ((acknowledgeOn x j m (offsetOf (image encode ((x.world j.1).stores c.storage).log) n)).files
        j.1 c.storage) := by
  have real : firstTom ≠ noTom := firstTom_real
  unfold acknowledgeOn Destination.acknowledgeOn Destination.locate resolve
  simp only [object, plain, eager, persistent, location, if_false, if_true, real]
  simpa [Destination.removeRecord, Destination.setObject, System.setFile] using
    stored_removed stored inside m.uuid

theorem untouched_iff (object : get (x.world j.1).objects j.2 = some c)
    (plain : c.mode ≠ .SESSION_TRANSACTED) (foreign : ∀ y ∈ c.inFlight, y.oid ≠ m.oid)
    (stored : Stored encode ((x.world j.1).stores c.storage) (x.files j.1 c.storage)) :
    Untouched x (acknowledgeOn x j m offset) ↔
      Harmless encode ((x.world j.1).stores c.storage) c m
        (resolve offset (x.files j.1 c.storage) m) := by
  have same : (x.world j.1).setObject j.2 c = x.world j.1 := by
    unfold Destination.setObject
    rw [put_get object]
  have world : Function.update x.world j.1 (x.world j.1) = x.world := Function.update_eq_self _ _
  have refl : Untouched x x := ⟨fun _ _ => rfl, rfl, fun _ _ => rfl⟩
  unfold acknowledgeOn Harmless
  rw [object]
  dsimp only
  rw [if_neg plain, unlink_foreign foreign, same, world]
  by_cases persistent : m.isPersistent = true
  · rw [if_pos persistent]
    by_cases none_ : (resolve offset (x.files j.1 c.storage) m).tomId = noTom
    · rw [if_pos none_]
      exact iff_of_true refl fun _ some_ => absurd none_ some_
    · rw [if_neg none_]
      simp only [persistent, none_, ne_eq, not_false_eq_true, forall_const]
      by_cases dups : c.mode = .DUPS_OK_ACKNOWLEDGE
      · rw [if_pos dups]
        refine iff_of_false ?_ fun harmless => harmless.1 dups
        intro untouched
        split at untouched
        · rename_i full
          have emptied := congrFun untouched.batches j
          simp only [Function.update_self] at emptied
          rw [← emptied] at full
          simp [kDupsOkBatch] at full
        · have longer := congrFun untouched.batches j
          simp at longer
      · rw [if_neg dups]
        simp only [dups, not_false_eq_true, true_and]
        rw [← stored_same_iff stored]
        constructor
        · intro untouched
          have here := untouched.records j.1 c.storage
          simpa [System.setFile] using here
        · intro kept
          refine ⟨fun _ _ => rfl, rfl, ?_⟩
          intro did sid
          unfold System.setFile
          dsimp only
          by_cases there : did = j.1
          · subst there
            rw [Function.update_self]
            by_cases own : sid = c.storage
            · subst own
              rw [Function.update_self]
              exact kept
            · rw [Function.update_of_ne own]
          · rw [Function.update_of_ne there]
  · rw [if_neg persistent]
    exact iff_of_true refl fun yes => absurd yes persistent

end Acknowledge

/- No object of one destination is in two chains, and none of another is in a chain. -/
theorem foundBy_foreign {w : Exchange} (unique : ∀ did, HeldOnce (w did)) {i j : Nat × Nat}
    (apart : i ≠ j) {c₁ c₂ : Consumer} (first : get (w i.1).objects i.2 = some c₁)
    (second : get (w j.1).objects j.2 = some c₂) {m : Message} (tracked : m ∈ c₁.inFlight) :
    ∀ x ∈ c₂.inFlight, x.oid ≠ (foundBy w i j m).oid := by
  intro x inside
  have there : x ∈ messagesAt (w j.1) (.inFlight j.2) := by
    simpa [messagesAt, chainOf, second] using inside
  have here : m ∈ messagesAt (w i.1) (.inFlight i.2) := by
    simpa [messagesAt, chainOf, first] using tracked
  unfold foundBy
  dsimp only
  split
  · rename_i same
    rw [same] at here
    intro equal
    have place := (unique j.1).apart _ _ x m there here equal
    refine apart (Prod.ext same ?_)
    simpa using place.symm
  · intro equal
    have old := (unique j.1).made _ x there
    omega

def queues : Exchange := fun _ => { type := .Queue }

theorem queues_idle (did : Nat) : Idle (queues did) := by
  intro p
  cases p <;> simp [queues, messagesAt, chainOf, receivedBy, stagedBy]

def peers (did : Nat) : List (Nat × Call) :=
  [(did, .createDefaultConsumer 0 .CLIENT_ACKNOWLEDGE),
    (did, .createConsumer calm 1 .CLIENT_ACKNOWLEDGE none),
    (did, .createProducer 5 .CLIENT_ACKNOWLEDGE)]

def short (_ : Content) : Payload := TinyMqStorageRuns.oneByte 7

/-- The consumer of queue 0 has received two letters, queue 1 holds one. -/
def twoQueues : List (Nat × Call) :=
  peers 0 ++ peers 1 ++ [(0, .send calm 5 [] (letter 0 7)), (0, .send calm 5 [] (letter 1 8)),
    (1, .send calm 5 [] (letter 2 9)), (0, .recv calm 1 0), (0, .recv calm 1 0)]

def onDisk (w : Exchange) : System := ⟨w,fun did sid => fileOf short ((w did).stores sid),fun _ => []⟩

def inFlightAtFirst : List (Nat × Call) :=
  peers 0 ++ [(0, .createConsumer calm 2 .CLIENT_ACKNOWLEDGE none),
    (0, .send calm 5 [] (letter 0 7)), (0, .recv calm 1 0)]

end TinyMqForeignAcks
