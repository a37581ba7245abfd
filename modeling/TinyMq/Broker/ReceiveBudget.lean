import TinyMq.Broker.Frames
import TinyMq.Broker.WireFormat

/-!
`Consumer::recv` with its timeout. The clock that the timeout is measured with starts
at the first expired message, and after every one the call ends when nothing of the
timeout is left, whatever still waits in the queue. A persistent message is read from its
bytes after it has left the queue, and `fromBytes` may throw.
-/
namespace TinyMqReceiveBudget
open DelimitedText AssocLists BandQueues TinyMqTom TinyMqMessage TinyMqStore TinyMqDestination
open TinyMqFrames TinyMqWireFormat

/-- What the clock says in one turn of the loop: the time the expiration is compared with and
    the microseconds since the first drop. -/
structure Reading where
  nowMs : Int
  elapsed : Int
  deriving DecidableEq

def later (clock : Nat → Reading) : Nat → Reading := fun k => clock (k + 1)

/-- `usec_timeout >= 0` and `remaining <= 0`: a negative timeout never runs out. -/
def spent (timeout : Int) (r : Reading) : Bool := 0 ≤ timeout ∧ timeout - r.elapsed ≤ 0

/-- How a message is read when it has left the queue; `none` is an exception. -/
abbrev Reader := Destination → Consumer → Message → Option Message

def readWhole : Reader := fun d c m => some (d.rehydrate c m)

/-- `fromBytes` on the bytes that `toBytes` has made. -/
def readContent (json : Json) (m : Message) (content : Content) : Option Message :=
  (fromBytes json m.content (toBytes json content)).map fun content => { m with content := content }

/-- The read of the bytes: from the cache, else from the storage. -/
def readBytes (json : Json) : Reader := fun d c m =>
  if m.isPersistent then
    match m.cachedStorageBytes with
    | some content => (readContent json m content).map fun m => { m with cachedStorageBytes := none }
    | none =>
      match ((d.stores c.storage).record m.uuid).bind (d.stores c.storage).data with
      | none => some m
      | some content => readContent json m content
  else some m

def bytesOf (d : Destination) (c : Consumer) (m : Message) : Option Content :=
  match m.cachedStorageBytes with
  | some content => some content
  | none => ((d.stores c.storage).record m.uuid).bind (d.stores c.storage).data

/-- Every persistent message in the consumer's queue comes out of its bytes as it went in. -/
def Readable (json : Json) (c : Consumer) (d : Destination) : Prop :=
  ∀ x ∈ (d.queues c.queue).toList, x.isPersistent = true → ∀ content, bytesOf d c x = some content →
    readContent json x content = some { x with content := content }

inductive Outcome where
  | returned (m : Option Message)
  | thrown
  deriving DecidableEq

/-- The loop of `recv`, for as many turns as there is fuel. -/
def recvLoop (read : Reader) (timeout : Int) (cid : Nat) :
    Nat → (Nat → Reading) → Destination → Destination × Outcome
  | 0, _, d => (d, .returned none)
  | fuel + 1, clock, d =>
    match get d.objects cid with
    | none => (d, .returned none)
    | some c =>
      match (d.queues c.queue).dequeue with
      | none => (d, .returned none)
      | some (m, q) =>
        let d := d.setQueue c.queue q
        match read d c m with
        | none => (d, .thrown)
        | some m =>
          if m.isExpired (clock 0).nowMs then
            let d := d.dropRecord c m
            if spent timeout (clock 0) then (d, .returned none)
            else recvLoop read timeout cid fuel (later clock) d
          else (d.setObject cid (track c m), .returned (some m))

/-- `recv(usec_timeout)` while no other call works on the queue: every turn takes a message,
    and the last one finds none. -/
def recvTimed (read : Reader) (timeout : Int) (cid : Nat) (clock : Nat → Reading)
    (d : Destination) : Destination × Outcome :=
  match get d.objects cid with
  | none => (d, .returned none)
  | some c => recvLoop read timeout cid ((d.queues c.queue).toList.length + 1) clock d

def taken (read : Reader) (c : Consumer) (d : Destination) : Option (Destination × Option Message) :=
  (d.queues c.queue).dequeue.map fun (m, q) =>
    (d.setQueue c.queue q, read (d.setQueue c.queue q) c m)

def skip (read : Reader) (c : Consumer) (d : Destination) : Destination :=
  match taken read c d with
  | none => d
  | some (e, none) => e
  | some (e, some m) => e.dropRecord c m

def turn (read : Reader) (c : Consumer) (d : Destination) : Nat → Destination
  | 0 => d
  | k + 1 => turn read c (skip read c d) k

def Late (read : Reader) (clock : Nat → Reading) (c : Consumer) (d : Destination) (k : Nat) : Prop :=
  ∃ e m, taken read c (turn read c d k) = some (e, some m) ∧ m.isExpired (clock k).nowMs = true

/-- Turn `k` finds the message `m`, which has not expired, and `e` is the state without it. -/
def Live (read : Reader) (clock : Nat → Reading) (c : Consumer) (d : Destination) (k : Nat)
    (e : Destination) (m : Message) : Prop :=
  taken read c (turn read c d k) = some (e, some m) ∧ m.isExpired (clock k).nowMs = false

section Queue
variable {read : Reader} {c : Consumer} {d e : Destination} {r : Option Message} {m : Message}

theorem taken_first (found : taken read c d = some (e, r)) :
    ∃ x, (d.queues c.queue).toList = x :: (e.queues c.queue).toList ∧ r = read e c x ∧
      e.objects = d.objects ∧ e.stores = d.stores := by
  unfold taken at found
  cases front : (d.queues c.queue).dequeue with
  | none =>
    rw [front] at found
    cases found
  | some front' =>
    obtain ⟨x, q⟩ := front'
    rw [front, Option.map_some, Option.some.injEq, Prod.mk.injEq] at found
    obtain ⟨rfl, rfl⟩ := found
    refine ⟨x, ?_, rfl, rfl, rfl⟩
    rw [dequeue_some front]
    simp [Destination.setQueue]

theorem taken_nothing (empty : (d.queues c.queue).toList = []) : taken read c d = none := by
  cases found : taken read c d with
  | none => rfl
  | some next =>
    obtain ⟨x, content, _⟩ := taken_first found
    rw [empty] at content
    cases content

theorem taken_none (empty : taken read c d = none) : (d.queues c.queue).toList = [] :=
  dequeue_none (Option.map_eq_none_iff.mp empty)

theorem dropRecord_queues (d : Destination) (c : Consumer) (m : Message) :
    (d.dropRecord c m).queues = d.queues := by
  unfold Destination.dropRecord Destination.removeLocated
  split
  · split <;> rfl
  · rfl

theorem skip_taken (found : taken read c d = some (e, some m)) :
    skip read c d = e.dropRecord c m := by
  unfold skip
  rw [found]

theorem skip_objects (read : Reader) (c : Consumer) (d : Destination) :
    (skip read c d).objects = d.objects := by
  unfold skip
  split
  · rfl
  · rename_i e found
    obtain ⟨_, _, _, objects, _⟩ := taken_first found
    exact objects
  · rename_i e m found
    obtain ⟨_, _, _, objects, _⟩ := taken_first found
    rw [(dropRecord_same e c m).objects, objects]

theorem skip_queue (read : Reader) (c : Consumer) (d : Destination) :
    ((skip read c d).queues c.queue).toList = (d.queues c.queue).toList.drop 1 := by
  unfold skip
  split
  · rename_i empty
    rw [taken_none empty]
    rfl
  · rename_i e found
    obtain ⟨x, content, _⟩ := taken_first found
    rw [content]
    rfl
  · rename_i e m found
    obtain ⟨x, content, _⟩ := taken_first found
    rw [dropRecord_queues, content]
    rfl

theorem turn_queue (read : Reader) (c : Consumer) (d : Destination) (k : Nat) :
    ((turn read c d k).queues c.queue).toList = (d.queues c.queue).toList.drop k := by
  induction k generalizing d with
  | zero => rfl
  | succ k ih => rw [turn, ih, skip_queue, List.drop_drop, Nat.add_comm 1 k]

theorem turn_succ (read : Reader) (c : Consumer) (d : Destination) (k : Nat) :
    turn read c d (k + 1) = skip read c (turn read c d k) := by
  induction k generalizing d with
  | zero => rfl
  | succ k ih => rw [turn, ih, turn]

theorem turn_objects (read : Reader) (c : Consumer) (d : Destination) (k : Nat) :
    (turn read c d k).objects = d.objects := by
  induction k generalizing d with
  | zero => rfl
  | succ k ih => rw [turn, ih, skip_objects]

theorem turn_removes {k : Nat} (found : taken read c (turn read c d k) = some (e, some m))
    (persistent : m.isPersistent = true) {rec : Nat × UUID} (located : e.locate c m = some rec) :
    turn read c d (k + 1) = e.removeRecord c.storage rec := by
  rw [turn_succ, skip_taken found]
  unfold Destination.dropRecord Destination.removeLocated
  rw [if_pos persistent, located]

end Queue

section Loop
variable {read : Reader} {timeout : Int} {cid : Nat} {c : Consumer} {d : Destination}
variable {clock : Nat → Reading}

theorem recvTimed_eq (object : get d.objects cid = some c) :
    recvTimed read timeout cid clock d =
      match taken read c d with
      | none => (d, .returned none)
      | some (e, none) => (e, .thrown)
      | some (e, some m) =>
        if m.isExpired (clock 0).nowMs then
          if spent timeout (clock 0) then (skip read c d, .returned none)
          else recvTimed read timeout cid (later clock) (skip read c d)
        else (e.setObject cid (track c m), .returned (some m)) := by
  cases front : (d.queues c.queue).dequeue with
  | none =>
    have found : taken read c d = none := Option.map_eq_none_iff.mpr front
    unfold recvTimed recvLoop
    simp only [object, front, found]
  | some front' =>
    obtain ⟨x, q⟩ := front'
    have found : taken read c d =
        some (d.setQueue c.queue q, read (d.setQueue c.queue q) c x) := by
      unfold taken
      rw [front]
      rfl
    have after : get (skip read c d).objects cid = some c := by
      rw [skip_objects]
      exact object
    have rest : ((skip read c d).queues c.queue).toList.length + 1 =
        (d.queues c.queue).toList.length := by
      rw [skip_queue, dequeue_some front]
      rfl
    have again : recvTimed read timeout cid (later clock) (skip read c d) =
        recvLoop read timeout cid (d.queues c.queue).toList.length (later clock)
          (skip read c d) := by
      unfold recvTimed
      rw [after]
      dsimp only
      rw [rest]
    rw [again]
    conv_lhs => unfold recvTimed
    rw [object]
    dsimp only
    rw [recvLoop, object]
    simp only [front]
    rw [found]
    cases outcome : read (d.setQueue c.queue q) c x with
    | none => rfl
    | some m =>
      rw [outcome] at found
      rw [skip_taken found]

theorem recvTimed_skips (object : get d.objects cid = some c) {k : Nat}
    (late : ∀ j < k, Late read clock c d j) (lasts : ∀ j < k, spent timeout (clock j) = false) :
    recvTimed read timeout cid clock d =
      recvTimed read timeout cid (fun j => clock (k + j)) (turn read c d k) := by
  induction k generalizing d clock with
  | zero => simp [turn]
  | succ k ih =>
    obtain ⟨e, m, found, old⟩ := late 0 (by omega)
    have after : get (skip read c d).objects cid = some c := by
      rw [skip_objects]
      exact object
    have rest := @ih (skip read c d) (later clock) after
      (fun j below => late (j + 1) (by omega)) (fun j below => lasts (j + 1) (by omega))
    have shifted : (fun j => clock (k + 1 + j)) = fun j => later clock (k + j) := by
      funext j
      unfold later
      rw [Nat.add_right_comm]
    rw [turn] at found
    rw [recvTimed_eq object, found]
    dsimp only
    rw [if_pos old, lasts 0 (by omega), if_neg (by simp), rest, turn, shifted]

theorem recvTimed_ends (object : get d.objects cid = some c) :
    ∃ n, (∀ j < n, Late read clock c d j) ∧
      ((recvTimed read timeout cid clock d = (turn read c d n, .returned none) ∧
          (taken read c (turn read c d n) = none ∨
            ∃ k, n = k + 1 ∧ spent timeout (clock k) = true)) ∨
        (∃ e, taken read c (turn read c d n) = some (e, none) ∧
          recvTimed read timeout cid clock d = (e, .thrown)) ∨
        ∃ e m, Live read clock c d n e m ∧
          recvTimed read timeout cid clock d =
            (e.setObject cid (track c m), .returned (some m))) := by
  induction size : (d.queues c.queue).toList.length generalizing d clock with
  | zero =>
    have empty : taken read c d = none := taken_nothing (List.length_eq_zero_iff.mp size)
    refine ⟨0, by omega, Or.inl ⟨?_, Or.inl empty⟩⟩
    rw [recvTimed_eq object, empty]
    rfl
  | succ size' ih =>
    rw [recvTimed_eq object]
    cases found : taken read c d with
    | none => exact ⟨0, by omega, Or.inl ⟨rfl, Or.inl found⟩⟩
    | some next =>
      obtain ⟨e, r⟩ := next
      cases r with
      | none => exact ⟨0, by omega, Or.inr (Or.inl ⟨e, found, rfl⟩)⟩
      | some m =>
        dsimp only
        by_cases old : m.isExpired (clock 0).nowMs = true
        · rw [if_pos old]
          have first : Late read clock c d 0 := ⟨e, m, found, old⟩
          by_cases over_ : spent timeout (clock 0) = true
          · rw [if_pos over_]
            refine ⟨1, ?_, Or.inl ⟨rfl, Or.inr ⟨0, rfl, over_⟩⟩⟩
            intro j below
            obtain rfl : j = 0 := by omega
            exact first
          · rw [if_neg over_]
            have after : get (skip read c d).objects cid = some c := by
              rw [skip_objects]
              exact object
            have shorter : ((skip read c d).queues c.queue).toList.length = size' := by
              rw [skip_queue, List.length_drop, size]
              rfl
            obtain ⟨n, late, ends⟩ := @ih (skip read c d) (later clock) after shorter
            refine ⟨n + 1, ?_, ?_⟩
            · intro j below
              cases j with
              | zero => exact first
              | succ j => exact late j (by omega)
            · rcases ends with ⟨result, empty | ⟨k, rfl, over_⟩⟩ | thrown | ⟨e', m', live, result⟩
              · exact Or.inl ⟨result, Or.inl empty⟩
              · exact Or.inl ⟨result, Or.inr ⟨k + 1, rfl, over_⟩⟩
              · exact Or.inr (Or.inl thrown)
              · exact Or.inr (Or.inr ⟨e', m', live, result⟩)
        · rw [if_neg old]
          exact ⟨0, by omega, Or.inr (Or.inr ⟨e, m, ⟨found, by simpa using old⟩, rfl⟩)⟩

theorem recvTimed_gives_up (object : get d.objects cid = some c) {k : Nat}
    (late : ∀ j ≤ k, Late read clock c d j) (lasts : ∀ j < k, spent timeout (clock j) = false)
    (over_ : spent timeout (clock k) = true) :
    recvTimed read timeout cid clock d = (turn read c d (k + 1), .returned none) := by
  obtain ⟨e, m, found, old⟩ := late k (le_refl k)
  have there : get (turn read c d k).objects cid = some c := by
    rw [turn_objects]
    exact object
  rw [recvTimed_skips object (fun j below => late j (by omega)) lasts, recvTimed_eq there, found]
  dsimp only
  rw [Nat.add_zero, if_pos old, if_pos over_, turn_succ]

theorem recvTimed_returns (object : get d.objects cid = some c) {p : Nat} {e : Destination}
    {m : Message} (late : ∀ j < p, Late read clock c d j) (live : Live read clock c d p e m)
    (lasts : ∀ j < p, spent timeout (clock j) = false) :
    recvTimed read timeout cid clock d = (e.setObject cid (track c m), .returned (some m)) := by
  have there : get (turn read c d p).objects cid = some c := by
    rw [turn_objects]
    exact object
  rw [recvTimed_skips object late lasts, recvTimed_eq there, live.1]
  dsimp only
  rw [Nat.add_zero, live.2, if_neg (by simp)]

theorem recvTimed_throws (object : get d.objects cid = some c) {p : Nat} {e : Destination}
    (late : ∀ j < p, Late read clock c d j) (unread : taken read c (turn read c d p) = some (e, none))
    (lasts : ∀ j < p, spent timeout (clock j) = false) :
    recvTimed read timeout cid clock d = (e, .thrown) := by
  have there : get (turn read c d p).objects cid = some c := by
    rw [turn_objects]
    exact object
  rw [recvTimed_skips object late lasts, recvTimed_eq there, unread]

theorem taken_place {p : Nat} {e : Destination} {r : Option Message}
    (found : taken read c (turn read c d p) = some (e, r)) :
    (e.queues c.queue).toList = (d.queues c.queue).toList.drop (p + 1) ∧
      ∃ x, (d.queues c.queue).toList[p]? = some x ∧ r = read e c x := by
  obtain ⟨x, content, outcome, _⟩ := taken_first found
  rw [turn_queue] at content
  refine ⟨?_, x, ?_, outcome⟩
  · rw [← List.drop_drop, content]
    rfl
  · rw [← List.head?_drop, content]
    rfl

theorem recv_eq (env : Env) (object : get d.objects cid = some c) (patience : Nat) :
    d.recv env cid patience =
      match taken readWhole c d with
      | some (e, some m) =>
        if m.isExpired env.nowMs then
          match patience with
          | 0 => (skip readWhole c d, none)
          | patience + 1 => (skip readWhole c d).recv env cid patience
        else (e.setObject cid (track c m), some m)
      | _ => (d, none) := by
  cases front : (d.queues c.queue).dequeue with
  | none =>
    have found : taken readWhole c d = none := Option.map_eq_none_iff.mpr front
    unfold Destination.recv
    simp only [object, front, found]
  | some front' =>
    obtain ⟨x, q⟩ := front'
    have found : taken readWhole c d =
        some (d.setQueue c.queue q, some ((d.setQueue c.queue q).rehydrate c x)) := by
      unfold taken
      rw [front]
      rfl
    rw [skip_taken found]
    conv_lhs => unfold Destination.recv
    cases patience with
    | zero => simp [object, front, found]
    | succ patience => simp [object, front, found]

/- With a clock that stands still while the call runs, and bytes that can be read, this is the
   receive of the other modules: what fits into the timeout is a number of expired messages. -/
theorem recvTimed_patience (env : Env) (object : get d.objects cid = some c)
    (still : ∀ k, (clock k).nowMs = env.nowMs)
    (reads : ∀ k, taken read c (turn readWhole c d k) = taken readWhole c (turn readWhole c d k)) :
    ∃ patience, recvTimed read timeout cid clock d =
      ((d.recv env cid patience).1, .returned (d.recv env cid patience).2) := by
  obtain ⟨size, length⟩ : ∃ size, (d.queues c.queue).toList.length = size := ⟨_, rfl⟩
  induction size generalizing d clock with
  | zero =>
    have empty := List.length_eq_zero_iff.mp length
    refine ⟨0, ?_⟩
    rw [recvTimed_eq object, recv_eq env object, taken_nothing empty, taken_nothing empty]
  | succ size ih =>
    have same : taken read c d = taken readWhole c d := reads 0
    have skipped : skip read c d = skip readWhole c d := by
      unfold skip
      rw [same]
    have after : get (skip readWhole c d).objects cid = some c := by
      rw [skip_objects]
      exact object
    have shorter : ((skip readWhole c d).queues c.queue).toList.length = size := by
      rw [skip_queue, List.length_drop, length]
      rfl
    obtain ⟨patience, rest⟩ := @ih (skip readWhole c d) (later clock) after
      (fun k => still (k + 1)) (fun k => reads (k + 1)) shorter
    obtain ⟨x, content, whole⟩ : ∃ x l, (d.queues c.queue).toList = x :: l := by
      cases list : (d.queues c.queue).toList with
      | nil =>
        rw [list] at length
        cases length
      | cons x l => exact ⟨x, l, rfl⟩
    cases found : taken readWhole c d with
    | none =>
      rw [taken_none found] at whole
      cases whole
    | some next =>
      obtain ⟨e, r⟩ := next
      obtain ⟨y, _, outcome, _⟩ := taken_first found
      subst outcome
      by_cases over_ : spent timeout (clock 0) = true
      · refine ⟨0, ?_⟩
        rw [recvTimed_eq object, recv_eq env object, same, skipped, found]
        simp only [readWhole, still 0, over_, if_true]
        split <;> rfl
      · refine ⟨patience + 1, ?_⟩
        rw [recvTimed_eq object, recv_eq env object, same, skipped, found]
        simp only [readWhole, still 0, if_neg over_, rest]
        split <;> rfl

end Loop

section Bytes
variable {json : Json} {c : Consumer} {d : Destination}

theorem readBytes_whole {m : Message} (back : m.isPersistent = true → ∀ content,
    bytesOf d c m = some content → readContent json m content = some { m with content := content }) :
    readBytes json d c m = readWhole d c m := by
  unfold readBytes readWhole Destination.rehydrate
  split
  · rename_i persistent
    have bytes := back persistent
    unfold bytesOf at bytes
    cases cached : m.cachedStorageBytes with
    | some content =>
      rw [cached] at bytes
      dsimp only
      rw [bytes content rfl, Option.map_some]
    | none =>
      rw [cached] at bytes
      dsimp only at bytes ⊢
      cases stored : ((d.stores c.storage).record m.uuid).bind (d.stores c.storage).data with
      | none => rfl
      | some content =>
        dsimp only
        rw [bytes content stored]
  · rfl

theorem Readable.taken (readable : Readable json c d) :
    taken (readBytes json) c d = taken readWhole c d := by
  unfold TinyMqReceiveBudget.taken
  cases front : (d.queues c.queue).dequeue with
  | none => rfl
  | some front' =>
    obtain ⟨x, q⟩ := front'
    have inside : x ∈ (d.queues c.queue).toList := by
      rw [dequeue_some front]
      exact List.mem_cons_self
    simp only [Option.map_some, readBytes_whole (d := d.setQueue c.queue q) (readable x inside)]

theorem bytesOf_dropped (e : Destination) (m x : Message) {content : Content}
    (bytes : bytesOf (e.dropRecord c m) c x = some content) : bytesOf e c x = some content := by
  unfold Destination.dropRecord Destination.removeLocated at bytes
  split at bytes
  · split at bytes
    · exact bytes
    · rename_i rec _
      unfold bytesOf at bytes ⊢
      split at bytes
      · exact bytes
      · rename_i uncached
        simp only [Destination.removeRecord, Function.update_self] at bytes
        by_cases good : (e.stores c.storage).good = true
        · obtain ⟨n, index, data⟩ := Option.bind_eq_some_iff.mp bytes
          simp only [Store.remove, good, if_true, Store.record, Store.data] at index data
          refine Option.bind_eq_some_iff.mpr ⟨n, ?_, ?_⟩
          · by_cases same : x.uuid = rec.2
            · rw [same, Function.update_self] at index
              cases index
            · rw [Function.update_of_ne same] at index
              exact index
          · rw [Store.data, if_pos good, ← data, TombstoneLog.remove, List.getElem?_modify]
            split <;> cases (e.stores c.storage).log[n]? <;> rfl
        · have same : (e.stores c.storage).remove rec.1 rec.2 = e.stores c.storage := if_neg good
          rw [same] at bytes
          exact bytes
  · exact bytes

theorem Readable.skip (readable : Readable json c d) : Readable json c (skip readWhole c d) := by
  intro x inside persistent content bytes
  rw [skip_queue] at inside
  refine readable x (List.mem_of_mem_drop inside) persistent content ?_
  cases found : TinyMqReceiveBudget.taken readWhole c d with
  | none =>
    unfold TinyMqReceiveBudget.skip at bytes
    rw [found] at bytes
    exact bytes
  | some next =>
    obtain ⟨e, r⟩ := next
    obtain ⟨y, _, outcome, _, stores⟩ := taken_first found
    rw [outcome, readWhole] at found
    rw [skip_taken found] at bytes
    have before := bytesOf_dropped e _ x bytes
    unfold bytesOf at before ⊢
    rw [stores] at before
    exact before

theorem Readable.turn (readable : Readable json c d) (k : Nat) :
    Readable json c (turn readWhole c d k) := by
  induction k generalizing d with
  | zero => exact readable
  | succ k ih => exact ih readable.skip

theorem recvTimed_readable {timeout : Int} {cid : Nat} {clock : Nat → Reading} (env : Env)
    (object : get d.objects cid = some c) (still : ∀ k, (clock k).nowMs = env.nowMs)
    (readable : Readable json c d) : ∃ patience, recvTimed (readBytes json) timeout cid clock d =
      ((d.recv env cid patience).1, .returned (d.recv env cid patience).2) :=
  recvTimed_patience env object still fun k => (readable.turn k).taken

end Bytes

def overtaken : Destination :=
  (((({ type := .Queue } : Destination).createConsumer calm 1 .AUTO_ACKNOWLEDGE none).createProducer 9
    .AUTO_ACKNOWLEDGE).sendWith calm 9 [] (letter 0 7)
      { timeToLive := 100, deliveryMode := .PERSISTENT }).1.sendWith calm 9 [] (letter 0 8)
        { deliveryMode := .PERSISTENT } |>.1

def reader : Consumer := ⟨.AUTO_ACKNOWLEDGE,.shared,.shared,none,[],.empty,[]⟩

/-- 200 ms later; every drop takes 50 microseconds. -/
def lateClock : Nat → Reading := fun k => ⟨200,50 * (k + 1)⟩

def plainTexts : Json where
  stringify _ := []
  parse _ := none
  convert _ _ := none

set_option maxRecDepth 20000 in
theorem overtaken_late : Late (readBytes plainTexts) lateClock reader overtaken 0 :=
  ⟨_, _, rfl, by decide⟩

set_option maxRecDepth 20000 in
theorem overtaken_live :
    ∃ e m, Live (readBytes plainTexts) lateClock reader overtaken 1 e m ∧ m.uuid = 8 :=
  ⟨_, _, ⟨rfl, by decide⟩, by decide⟩

end TinyMqReceiveBudget
