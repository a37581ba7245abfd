import Mathlib.Data.List.Induction
import TinyMq.Broker.Frames

/-!
The lazy acknowledgements of DUPS_OK_ACKNOWLEDGE. The records of acknowledged messages
wait in a batch, and the batch is removed when it is full and when the consumer goes.
What was removed and what waits are together what INDIVIDUAL_ACKNOWLEDGE removes at once.
-/
namespace TinyMqLazyAcks
open DelimitedText AssocLists TombstoneLog TinyMqTom TinyMqMessage TinyMqStore TinyMqDestination
open TinyMqFrames

section Removals
variable {α : Type}

def removeAll (s : Store α) (recs : List (Nat × UUID)) : Store α :=
  recs.foldl (fun s rec => s.remove rec.1 rec.2) s

theorem removeAll_append (s : Store α) (a b : List (Nat × UUID)) :
    removeAll s (a ++ b) = removeAll (removeAll s a) b := List.foldl_append

theorem removeAll_failed {s : Store α} (failed : s.good = false) (recs : List (Nat × UUID)) :
    removeAll s recs = s := by
  induction recs with
  | nil => rfl
  | cons rec recs ih =>
    have same : s.remove rec.1 rec.2 = s := by simp [Store.remove, failed]
    rw [removeAll, List.foldl_cons, same]
    exact ih

theorem removeAll_good {s : Store α} (good : s.good = true) (recs : List (Nat × UUID)) :
    (removeAll s recs).good = true := by
  induction recs generalizing s with
  | nil => exact good
  | cons rec recs ih => exact ih (by simp [Store.remove, good])

theorem removeAll_index {s : Store α} (good : s.good = true) (recs : List (Nat × UUID))
    (uuid : UUID) : (removeAll s recs).index uuid =
      if uuid ∈ recs.map Prod.snd then none else s.index uuid := by
  induction recs generalizing s with
  | nil => rfl
  | cons rec recs ih =>
    have first : (s.remove rec.1 rec.2).good = true := by simp [Store.remove, good]
    rw [removeAll, List.foldl_cons]
    refine (ih first).trans ?_
    by_cases here : uuid = rec.2
    · simp [Store.remove, good, here]
    · have later : uuid ∈ (rec :: recs).map Prod.snd ↔ uuid ∈ recs.map Prod.snd := by
        rw [List.map_cons, List.mem_cons]
        exact or_iff_right here
      simp only [later]
      simp [Store.remove, good, here]

theorem removeAll_log {s : Store α} (good : s.good = true) (recs : List (Nat × UUID)) (i : Nat) :
    (removeAll s recs).log[i]? = s.log[i]?.map fun e =>
      if i ∈ recs.map Prod.fst then { e with removed := true } else e := by
  induction recs generalizing s with
  | nil => simp [removeAll]
  | cons rec recs ih =>
    have first : (s.remove rec.1 rec.2).good = true := by simp [Store.remove, good]
    rw [removeAll, List.foldl_cons]
    refine (ih first).trans ?_
    by_cases here : i = rec.1
    · cases entry : s.log[i]? with
      | none => simp [Store.remove, good, TombstoneLog.remove, List.getElem?_modify, entry]
      | some e =>
        by_cases again : rec.1 ∈ recs.map Prod.fst <;>
          simp_all [Store.remove, TombstoneLog.remove]
    · have other : rec.1 ≠ i := fun same => here same.symm
      simp [Store.remove, good, TombstoneLog.remove, here, other]

theorem removeAll_same (s : Store α) {a b : List (Nat × UUID)} (same : ∀ r, r ∈ a ↔ r ∈ b) :
    removeAll s a = removeAll s b := by
  cases good : s.good with
  | false => rw [removeAll_failed good, removeAll_failed good]
  | true =>
    have locations : ∀ i, i ∈ a.map Prod.fst ↔ i ∈ b.map Prod.fst := by
      intro i
      simp only [List.mem_map, same]
    have uuids : ∀ u, u ∈ a.map Prod.snd ↔ u ∈ b.map Prod.snd := by
      intro u
      simp only [List.mem_map, same]
    have logs : (removeAll s a).log = (removeAll s b).log := by
      apply List.ext_getElem?
      intro i
      rw [removeAll_log good, removeAll_log good]
      simp only [locations]
    have indexes : (removeAll s a).index = (removeAll s b).index := by
      funext u
      rw [removeAll_index good, removeAll_index good]
      simp only [uuids]
    have goods : (removeAll s a).good = (removeAll s b).good := by
      rw [removeAll_good good, removeAll_good good]
    cases removed : removeAll s a
    cases removed' : removeAll s b
    simp_all

end Removals

section Acknowledgements

/-- The records that one acknowledgement hands to `removeAsync`. -/
def removals (d : Destination) (cid : Nat) (m : Message) : List (Nat × UUID) :=
  match get d.objects cid with
  | none => []
  | some c =>
    if c.mode = .SESSION_TRANSACTED ∨ m.isPersistent = false then []
    else
      match d.locate c m with
      | none => []
      | some rec =>
        if c.mode = .DUPS_OK_ACKNOWLEDGE then
          if kDupsOkBatch ≤ (c.pendingAcks ++ [rec]).length then c.pendingAcks ++ [rec] else []
        else [rec]

def acknowledgeAll (d : Destination) (cid : Nat) (ms : List Message) : Destination :=
  ms.foldl (fun d m => d.acknowledgeOn cid m) d

/-- What a sequence of acknowledgements hands to `removeAsync`. -/
def removalsOf : Destination → Nat → List Message → List (Nat × UUID)
  | _, _, [] => []
  | d, cid, m :: ms => removals d cid m ++ removalsOf (d.acknowledgeOn cid m) cid ms

theorem removalsOf_append (d : Destination) (cid : Nat) (a b : List Message) :
    removalsOf d cid (a ++ b) = removalsOf d cid a ++ removalsOf (acknowledgeAll d cid a) cid b := by
  induction a generalizing d with
  | nil => rfl
  | cons m a ih => simp [removalsOf, acknowledgeAll, ih]

theorem removeRecords_stores (sid : StorageId) (recs : List (Nat × UUID)) (d : Destination) :
    (recs.foldl (fun d rec => d.removeRecord sid rec) d).stores =
      Function.update d.stores sid (removeAll (d.stores sid) recs) := by
  induction recs generalizing d with
  | nil => exact (Function.update_eq_self sid d.stores).symm
  | cons rec recs ih =>
    rw [List.foldl_cons, ih]
    simp [Destination.removeRecord, removeAll]

variable {d : Destination} {cid : Nat} {c : Consumer} {m : Message}

/-- The batch of a consumer after an acknowledgement that found the record `rec`. -/
def batched (c : Consumer) (rec : Nat × UUID) : List (Nat × UUID) :=
  if c.mode = .DUPS_OK_ACKNOWLEDGE then
    if kDupsOkBatch ≤ (c.pendingAcks ++ [rec]).length then [] else c.pendingAcks ++ [rec]
  else c.pendingAcks

theorem removals_batched (object : get d.objects cid = some c)
    (plain : c.mode ≠ .SESSION_TRANSACTED) (r : Nat × UUID) :
    (r ∈ removals d cid m ∨
        r ∈ match (if m.isPersistent = true then d.locate c m else none) with
          | none => c.pendingAcks
          | some rec => batched c rec) ↔
      r ∈ c.pendingAcks ∨
        r ∈ (if m.isPersistent = true then d.locate c m else none).toList := by
  unfold removals batched
  rw [object]
  dsimp only
  by_cases persistent : m.isPersistent = true
  · simp only [plain, persistent, Bool.true_eq_false, or_self, if_false, if_true]
    cases d.locate c m with
    | none => simp
    | some rec =>
      dsimp only
      split
      · split <;> simp
      · simp [or_comm]
  · have volatile : m.isPersistent = false := by simpa using persistent
    simp [volatile]

theorem acknowledgeOn_spec (object : get d.objects cid = some c)
    (plain : c.mode ≠ .SESSION_TRANSACTED) :
    (d.acknowledgeOn cid m).stores =
        Function.update d.stores c.storage (removeAll (d.stores c.storage) (removals d cid m)) ∧
      ∃ c', get (d.acknowledgeOn cid m).objects cid = some c' ∧ c'.mode = c.mode ∧
        c'.storage = c.storage ∧ c'.pendingAcks =
          match (if m.isPersistent = true then d.locate c m else none) with
          | none => c.pendingAcks
          | some rec => batched c rec := by
  have quiet : Function.update d.stores c.storage (removeAll (d.stores c.storage) []) = d.stores :=
    Function.update_eq_self c.storage d.stores
  unfold Destination.acknowledgeOn removals
  rw [object]
  dsimp only
  rw [if_neg plain]
  by_cases persistent : m.isPersistent = true
  · have located : ∀ inFlight, (d.setObject cid { c with inFlight := inFlight }).locate
        { c with inFlight := inFlight } m = d.locate c m := fun _ => rfl
    rw [if_pos persistent, if_pos persistent, located]
    simp only [plain, persistent, Bool.true_eq_false, or_self, if_false]
    cases found : d.locate c m with
    | none =>
      dsimp only
      rw [quiet]
      exact ⟨rfl, _, get_put_same _ _ _, rfl, rfl, rfl⟩
    | some rec =>
      dsimp only
      by_cases lazy : c.mode = .DUPS_OK_ACKNOWLEDGE
      · unfold batched
        rw [if_pos lazy, if_pos lazy, if_pos lazy]
        by_cases full : kDupsOkBatch ≤ (c.pendingAcks ++ [rec]).length
        · rw [if_pos full, if_pos full, if_pos full]
          refine ⟨?_, _, get_put_same _ _ _, rfl, rfl, rfl⟩
          unfold Destination.flushPendingAcks
          exact removeRecords_stores c.storage (c.pendingAcks ++ [rec]) _
        · rw [if_neg full, if_neg full, if_neg full, quiet]
          exact ⟨rfl, _, get_put_same _ _ _, rfl, rfl, rfl⟩
      · unfold batched
        rw [if_neg lazy, if_neg lazy, if_neg lazy]
        exact ⟨removeRecords_stores c.storage [rec] _, _, get_put_same _ _ _, rfl, rfl, rfl⟩
  · rw [if_neg persistent, if_neg persistent]
    have volatile : m.isPersistent = false := by simpa using persistent
    simp only [volatile, or_true, if_true]
    rw [quiet]
    exact ⟨rfl, _, get_put_same _ _ _, rfl, rfl, rfl⟩

theorem acknowledgeOn_shape (object : get d.objects cid = some c)
    (plain : c.mode ≠ .SESSION_TRANSACTED) : ∃ stores c',
      d.acknowledgeOn cid m = { d with stores := stores, objects := put d.objects cid c' } := by
  unfold Destination.acknowledgeOn
  rw [object]
  dsimp only
  rw [if_neg plain]
  split
  · split
    · exact ⟨_, _, rfl⟩
    · split
      · split
        · unfold Destination.flushPendingAcks Destination.setObject
          obtain ⟨stores, only⟩ := removeRecords_frame { d with
            objects := put d.objects cid { c with inFlight := c.inFlight.filter (·.oid ≠ m.oid) } }
            c.storage (c.pendingAcks ++ [‹Nat × UUID›])
          dsimp only at only ⊢
          rw [only, put_put]
          exact ⟨_, _, rfl⟩
        · unfold Destination.setObject
          rw [put_put]
          exact ⟨_, _, rfl⟩
      · exact ⟨_, _, rfl⟩
  · exact ⟨_, _, rfl⟩

theorem destroyConsumer_spec (env : Env) (object : get d.objects cid = some c)
    (plain : c.mode ≠ .SESSION_TRANSACTED) : (d.destroyConsumer env cid).1 = { d with
      stores := Function.update d.stores c.storage (removeAll (d.stores c.storage) c.pendingAcks),
      objects := erase (put d.objects cid { c with pendingAcks := [] }) cid } := by
  have idle : (d.flushPendingAcks cid c).rollbackConsumer env cid false =
      (d.flushPendingAcks cid c, []) := by
    unfold Destination.rollbackConsumer Destination.flushPendingAcks Destination.setObject
    simp only [get_put_same]
    rw [if_neg plain]
  have written := removeRecords_stores c.storage c.pendingAcks d
  obtain ⟨stores, only⟩ := removeRecords_frame d c.storage c.pendingAcks
  rw [only] at written
  dsimp only at written
  unfold Destination.destroyConsumer
  rw [object]
  dsimp only
  rw [idle]
  unfold Destination.flushPendingAcks Destination.setObject
  rw [only, ← written]

end Acknowledgements

section Runs
variable {d s : Destination} {cid : Nat} {c : Consumer} {ms : List Message}

/-- The records of acknowledged messages, as they are found before the first one. -/
def owed (d : Destination) (c : Consumer) (ms : List Message) : List (Nat × UUID) :=
  ms.filterMap fun m => if m.isPersistent then d.locate c m else none

def Distinct (ms : List Message) : Prop := ∀ m ∈ ms, ∀ m' ∈ ms, m.uuid = m'.uuid → m = m'

/-- What the acknowledgements `ms` made of the state `d`: the records are removed or wait in
    a batch that is not full. -/
structure Settled (d : Destination) (cid : Nat) (c : Consumer) (ms : List Message)
    (removed : List (Nat × UUID)) (s : Destination) (c' : Consumer) : Prop where
  object : get s.objects cid = some c'
  mode : c'.mode = c.mode
  storage : c'.storage = c.storage
  few : c'.pendingAcks.length < kDupsOkBatch
  eager : c.mode ≠ .DUPS_OK_ACKNOWLEDGE → c'.pendingAcks = []
  stores : s.stores =
    Function.update d.stores c.storage (removeAll (d.stores c.storage) removed)
  all : ∀ r, r ∈ removed ∨ r ∈ c'.pendingAcks ↔ r ∈ owed d c ms

theorem locate_uuid {m : Message} {rec : Nat × UUID} (found : d.locate c m = some rec) :
    rec.2 = m.uuid := by
  unfold Destination.locate at found
  split at found
  · rw [← Option.some.inj found]
  · cases record : (d.stores c.storage).record m.uuid with
    | none =>
      rw [record] at found
      cases found
    | some location =>
      rw [record] at found
      rw [← Option.some.inj found]

theorem owed_snoc (m : Message) : owed d c (ms ++ [m]) =
    owed d c ms ++ (if m.isPersistent = true then d.locate c m else none).toList := by
  unfold owed
  rw [List.filterMap_append, List.filterMap_cons, List.filterMap_nil]
  cases (if m.isPersistent = true then d.locate c m else none) <;> rfl

theorem Settled.located {removed : List (Nat × UUID)} {c' : Consumer}
    (settled : Settled d cid c ms removed s c') {m : Message} {rec : Nat × UUID}
    (found : s.locate c' m = some rec) : d.locate c m = some rec := by
  unfold Destination.locate at found ⊢
  rw [settled.storage, settled.stores, Function.update_self] at found
  cases location : m.location with
  | some _ =>
    rw [location] at found
    exact found
  | none =>
    rw [location] at found
    dsimp only at found ⊢
    cases good : (d.stores c.storage).good with
    | false =>
      rw [removeAll_failed good] at found
      exact found
    | true =>
      unfold Store.record at found ⊢
      rw [removeAll_index good] at found
      split at found
      · cases found
      · exact found

theorem Settled.repeated {removed : List (Nat × UUID)} {c' : Consumer}
    (settled : Settled d cid c ms removed s c') {m : Message} (distinct : Distinct (ms ++ [m]))
    {rec : Nat × UUID} (missing : s.locate c' m = none)
    (before : d.locate c m = some rec) : rec ∈ owed d c ms := by
  have known : ∃ r ∈ removed, r.2 = m.uuid := by
    unfold Destination.locate at missing before
    rw [settled.storage, settled.stores, Function.update_self] at missing
    cases location : m.location with
    | some _ =>
      rw [location] at missing
      cases missing
    | none =>
      rw [location] at missing before
      dsimp only at missing before
      cases good : (d.stores c.storage).good with
      | false =>
        rw [removeAll_failed good, before] at missing
        cases missing
      | true =>
        unfold Store.record at missing before
        rw [removeAll_index good] at missing
        split at missing
        · rename_i member
          simpa using member
        · rw [before] at missing
          cases missing
  obtain ⟨r, inside, uuid⟩ := known
  have listed := (settled.all r).mp (Or.inl inside)
  obtain ⟨m', member, found⟩ := List.mem_filterMap.mp listed
  have here : m'.isPersistent = true ∧ d.locate c m' = some r := by
    split at found
    · rename_i persistent'
      exact ⟨persistent', found⟩
    · cases found
  have same : m' = m := distinct m' (by simp [member]) m (by simp)
    ((locate_uuid here.2).symm.trans uuid)
  rw [same, before] at here
  rw [Option.some.inj here.2]
  exact listed

theorem Settled.snoc {removed : List (Nat × UUID)} {c' : Consumer}
    (settled : Settled d cid c ms removed s c') (plain : c.mode ≠ .SESSION_TRANSACTED)
    {m : Message} (distinct : Distinct (ms ++ [m])) :
    ∃ c'', Settled d cid c (ms ++ [m]) (removed ++ removals s cid m) (s.acknowledgeOn cid m) c'' := by
  obtain ⟨stores, c'', object, mode, storage, pending⟩ := acknowledgeOn_spec (m := m)
    settled.object (by rw [settled.mode]; exact plain)
  have written : (s.acknowledgeOn cid m).stores = Function.update d.stores c.storage
      (removeAll (d.stores c.storage) (removed ++ removals s cid m)) := by
    rw [stores, settled.storage, settled.stores, Function.update_self, Function.update_idem,
      removeAll_append]
  have member := removals_batched (m := m) settled.object (by rw [settled.mode]; exact plain)
  refine ⟨c'', object, mode.trans settled.mode, storage.trans settled.storage, ?_, ?_, written, ?_⟩
  · rw [pending]
    split
    · exact settled.few
    · unfold batched
      split
      · split
        · decide
        · omega
      · exact settled.few
  · intro eager
    rw [pending]
    split
    · exact settled.eager eager
    · unfold batched
      rw [if_neg (by rw [settled.mode]; exact eager)]
      exact settled.eager eager
  · intro r
    rw [List.mem_append, or_assoc, pending, member r, ← or_assoc, settled.all r, owed_snoc,
      List.mem_append]
    by_cases persistent : m.isPersistent = true
    · rw [if_pos persistent, if_pos persistent]
      cases found : s.locate c' m with
      | some rec => rw [settled.located found]
      | none =>
        cases before : d.locate c m with
        | none => rfl
        | some rec =>
          have known := settled.repeated distinct found before
          simp only [Option.toList_none, List.not_mem_nil, or_false, Option.toList_some,
            List.mem_singleton]
          constructor
          · exact Or.inl
          · rintro (old | rfl)
            · exact old
            · exact known
    · rw [if_neg persistent, if_neg persistent]

theorem settled_all (object : get d.objects cid = some c) (plain : c.mode ≠ .SESSION_TRANSACTED)
    (empty : c.pendingAcks = []) (distinct : Distinct ms) :
    ∃ c', Settled d cid c ms (removalsOf d cid ms) (acknowledgeAll d cid ms) c' := by
  induction ms using List.reverseRecOn with
  | nil =>
    refine ⟨c, object, rfl, rfl, by rw [empty]; decide, fun _ => empty, ?_, ?_⟩
    · exact (Function.update_eq_self c.storage d.stores).symm
    · intro r
      simp [removalsOf, owed, empty]
  | append_singleton ms m ih =>
    have before : Distinct ms := fun a inside b there => distinct a (by simp [inside]) b (by simp [there])
    obtain ⟨c', settled⟩ := ih before
    obtain ⟨c'', more⟩ := settled.snoc plain distinct
    refine ⟨c'', ?_⟩
    have last : acknowledgeAll d cid (ms ++ [m]) = (acknowledgeAll d cid ms).acknowledgeOn cid m :=
      List.foldl_append
    rw [removalsOf_append, last]
    simpa [removalsOf] using more

theorem destroyed_stores (env : Env) {removed : List (Nat × UUID)} {c' : Consumer}
    (settled : Settled d cid c ms removed s c') (plain : c.mode ≠ .SESSION_TRANSACTED) :
    (s.destroyConsumer env cid).1.stores = Function.update d.stores c.storage
      (removeAll (d.stores c.storage) (owed d c ms)) := by
  rw [destroyConsumer_spec env settled.object (by rw [settled.mode]; exact plain)]
  dsimp only
  rw [settled.storage, settled.stores, Function.update_self, Function.update_idem,
    ← removeAll_append]
  congr 1
  refine removeAll_same _ ?_
  intro r
  rw [List.mem_append]
  exact settled.all r

end Runs

def inMode (d : Destination) (cid : Nat) (c : Consumer) (mode : AcknowledgeMode) : Destination :=
  d.setObject cid { c with mode := mode }

/-- For every sequence of acknowledgements, repeated ones too: what the lazy consumer has
    removed and what waits in its batch, which is never full, are together what the eager
    consumer has removed; and after the destruction of the consumer the storages are the
    same. -/
theorem lazy_as_eager {d : Destination} {cid : Nat} {c : Consumer} (empty : c.pendingAcks = [])
    {ms : List Message} (distinct : Distinct ms) (env : Env) :
    let lazy := inMode d cid c .DUPS_OK_ACKNOWLEDGE
    let eager := inMode d cid c .INDIVIDUAL_ACKNOWLEDGE
    ∃ c', get (acknowledgeAll lazy cid ms).objects cid = some c' ∧
      c'.pendingAcks.length < kDupsOkBatch ∧
      (∀ r, r ∈ removalsOf lazy cid ms ∨ r ∈ c'.pendingAcks ↔ r ∈ removalsOf eager cid ms) ∧
      (acknowledgeAll lazy cid ms).stores = Function.update d.stores c.storage
        (removeAll (d.stores c.storage) (removalsOf lazy cid ms)) ∧
      (acknowledgeAll eager cid ms).stores = Function.update d.stores c.storage
        (removeAll (d.stores c.storage) (removalsOf eager cid ms)) ∧
      ((acknowledgeAll lazy cid ms).destroyConsumer env cid).1.stores =
        ((acknowledgeAll eager cid ms).destroyConsumer env cid).1.stores := by
  intro lazy eager
  have object : ∀ mode, get (inMode d cid c mode).objects cid = some { c with mode := mode } :=
    fun mode => get_put_same _ _ _
  obtain ⟨lazy', settled⟩ := settled_all (object .DUPS_OK_ACKNOWLEDGE) (by simp) empty distinct
  obtain ⟨eager', settled'⟩ := settled_all (object .INDIVIDUAL_ACKNOWLEDGE) (by simp) empty distinct
  have nothing : eager'.pendingAcks = [] := settled'.eager (by simp)
  have all := settled'.all
  rw [nothing] at all
  simp only [List.not_mem_nil, or_false] at all
  refine ⟨lazy', settled.object, settled.few, ?_, settled.stores, settled'.stores, ?_⟩
  · intro r
    rw [settled.all r, all r]
    rfl
  · rw [destroyed_stores env settled (by simp), destroyed_stores env settled' (by simp)]
    rfl

def sentThree : Destination :=
  [1, 2, 3].foldl (fun d uuid => (d.sendWith calm 9 [] (letter 0 uuid)
      { deliveryMode := .PERSISTENT }).1)
    ((({ type := .Queue } : Destination).createConsumer calm 1 .AUTO_ACKNOWLEDGE none).createProducer
      9 .AUTO_ACKNOWLEDGE)

def plainReader : Consumer := ⟨.AUTO_ACKNOWLEDGE,.shared,.shared,none,[],.empty,[]⟩

def acknowledged : List Message :=
  let received := (sentThree.queues .shared).toList.map (sentThree.rehydrate plainReader)
  received.take 2 ++ received.take 1

theorem sentThree_lazy :
    let lazy := inMode sentThree 1 plainReader .DUPS_OK_ACKNOWLEDGE
    let eager := inMode sentThree 1 plainReader .INDIVIDUAL_ACKNOWLEDGE
    (∃ c', get (acknowledgeAll lazy 1 acknowledged).objects 1 = some c' ∧
      ∀ r, r ∈ removalsOf lazy 1 acknowledged ∨ r ∈ c'.pendingAcks ↔
        r ∈ removalsOf eager 1 acknowledged) ∧
      removalsOf eager 1 acknowledged = [(0, 1), (1, 2), (0, 1)] ∧
      ((acknowledgeAll lazy 1 acknowledged).destroyConsumer calm 1).1.stores =
        ((acknowledgeAll eager 1 acknowledged).destroyConsumer calm 1).1.stores := by
  obtain ⟨c', object, _, same, _, _, stores⟩ := @lazy_as_eager sentThree 1 plainReader rfl
    acknowledged (by unfold Distinct; decide) calm
  exact ⟨⟨c', object, same⟩, by decide, stores⟩

end TinyMqLazyAcks
