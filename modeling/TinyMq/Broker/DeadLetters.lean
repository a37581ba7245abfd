import TinyMq.Broker.Frames

/-!
A message that passes its redelivery limit on the way to the dead-letter queue.
`redeliver` calls `deadLetter`, which appends a copy to the storage of the other
queue, and then takes the record out of its own storage. `deadLetter` swallows
every exception and the worker of the other storage swallows a failed append, so
the removal goes ahead whatever became of the copy. Each step here is one write
to a storage or the way to the next one, and a crash may fall behind any of them.
-/
namespace TinyMqDeadLetters
open AssocLists TombstoneLog TinyMqTom TinyMqMessage TinyMqStore TinyMqDestination TinyMqSession
open TinyMqFrames

/-- Where `deadLetter` throws: before its append has been handed over, or behind it. -/
inductive Fault where
  | never
  | copying
  | delivering
  deriving DecidableEq

inductive Phase where
  | called
  | copied (copy : Message)
  | appended (copy : Message)
  | returned
  | submitted (rec : Nat × UUID)
  | done

structure Transfer where
  origin : Destination
  dlq : Destination
  phase : Phase

def step (env : Env) (fault : Fault) (c : Consumer) (m : Message) (s : Transfer) : Transfer :=
  match s.phase with
  | .called =>
    if fault = .copying then { s with phase := .returned }
    else
      { s with
        dlq := { s.dlq with nextOid := s.dlq.nextOid + 1 },
        phase := .copied (deadLetterCopy m s.dlq.nextOid) }
  | .copied copy =>
    if copy.isPersistent then
      let (dlq, r) := s.dlq.appendRecord env .shared copy.uuid copy.content
      { s with
        dlq := dlq,
        phase := .appended { copy with cachedStorageBytes := some copy.content, location := r } }
    else { s with phase := .appended copy }
  | .appended copy =>
    if fault = .delivering then { s with phase := .returned }
    else
      { s with
        dlq := if s.dlq.queueMade then s.dlq.enqueueOrSchedule env .shared copy else s.dlq,
        phase := .returned }
  | .returned =>
    if m.isPersistent then
      match s.origin.locate c m with
      | none => { s with phase := .done }
      | some rec => { s with phase := .submitted rec }
    else { s with phase := .done }
  | .submitted rec => { s with origin := s.origin.removeRecord c.storage rec, phase := .done }
  | .done => s

def after (env : Env) (fault : Fault) (c : Consumer) (m : Message) (origin dlq : Destination) :
    Nat → Transfer
  | 0 => ⟨origin,dlq,.called⟩
  | n + 1 => step env fault c m (after env fault c m origin dlq n)

/-- A new process on the same directory finds the record live. -/
def LiveAt (s : Store Content) (location : Nat) (uuid : UUID) : Prop :=
  ∃ e, (e, location) ∈ s.reopen.scan ∧ e.key = uuid

/-- The message is a live record of its consumer's storage or of the dead-letter queue's,
    where it was not before. -/
def Kept (c : Consumer) (location : Nat) (m : Message) (dlq : Destination) (s : Transfer) : Prop :=
  LiveAt (s.origin.stores c.storage) location m.uuid ∨
    ∃ i, (dlq.stores .shared).log.length ≤ i ∧ LiveAt (s.dlq.stores .shared) i m.uuid

/-- The message's own record, where the code will look for it. -/
structure Recorded (d : Destination) (c : Consumer) (m : Message) (location : Nat) : Prop where
  persistent : m.isPersistent = true
  located : d.locate c m = some (location, m.uuid)
  live : LiveAt (d.stores c.storage) location m.uuid

/-- The copy reaches the other storage: nothing is thrown before its append and the
    append does not fail. -/
def Copied (env : Env) (fault : Fault) (dlq : Destination) : Prop :=
  fault ≠ .copying ∧ (dlq.stores .shared).good = true ∧
    env.appendFails .shared (dlq.stores .shared).log.length = false

def removedAfter (fault : Fault) : Nat := if fault = .copying then 3 else 5

theorem liveAt_iff (s : Store Content) (location : Nat) (uuid : UUID) :
    LiveAt s location uuid ↔
      ∃ e, s.log[location]? = some e ∧ e.removed = false ∧ e.key = uuid := by
  unfold LiveAt
  have scanned : s.reopen.scan = liveRecords s.log := rfl
  rw [scanned]
  constructor
  · rintro ⟨e, member, key⟩
    obtain ⟨placed, alive⟩ := mem_liveRecords member
    exact ⟨e, placed, alive, key⟩
  · rintro ⟨e, placed, alive, key⟩
    refine ⟨e, ?_, key⟩
    simp only [liveRecords, List.mem_filter, Bool.not_eq_true']
    exact ⟨List.mem_zipIdx_iff_getElem?.mpr placed, alive⟩

theorem removed_live_iff {s : Store Content} {location : Nat} {uuid : UUID}
    (alive : LiveAt s location uuid) :
    LiveAt (s.remove location uuid) location uuid ↔ s.good = false := by
  cases good : s.good with
  | false => simpa [Store.remove, good] using alive
  | true =>
    rw [liveAt_iff] at alive ⊢
    obtain ⟨e, placed, _⟩ := alive
    simp [Store.remove, good, TombstoneLog.remove, placed]

theorem appended_live_iff (env : Env) (dlq : Destination) (uuid : UUID) (content : Content) :
    (∃ i, (dlq.stores .shared).log.length ≤ i ∧
      LiveAt ((dlq.appendRecord env .shared uuid content).1.stores .shared) i uuid) ↔
      (dlq.stores .shared).good = true ∧
        env.appendFails .shared (dlq.stores .shared).log.length = false := by
  simp only [Destination.appendRecord, Function.update_self, liveAt_iff]
  unfold Store.append
  by_cases ok : (dlq.stores .shared).good = true ∧
      env.appendFails .shared (dlq.stores .shared).log.length = false
  · rw [if_pos ok]
    simp only [ok, and_self, iff_true]
    exact ⟨_, le_refl _, ⟨uuid,content,false⟩, by simp [TombstoneLog.append], rfl, rfl⟩
  · rw [if_neg ok]
    simp only [ok, iff_false]
    rintro ⟨i, behind, e, placed, _⟩
    have inside := (List.getElem?_eq_some_iff.mp placed).1
    omega

section Steps
variable {env : Env} {fault : Fault} {c : Consumer} {m : Message} {origin dlq : Destination}
variable {location : Nat}

def appendedTo (env : Env) (m : Message) (dlq : Destination) : Destination :=
  (({ dlq with nextOid := dlq.nextOid + 1 } : Destination).appendRecord env .shared
    (deadLetterCopy m dlq.nextOid).uuid (deadLetterCopy m dlq.nextOid).content).1

/-- How far the call has come, as the two storages show it. -/
structure Progress (env : Env) (fault : Fault) (c : Consumer) (m : Message) (location : Nat)
    (origin dlq : Destination) (n : Nat) (s : Transfer) : Prop where
  origin : s.origin = if removedAfter fault ≤ n then origin.removeRecord c.storage (location, m.uuid)
    else origin
  dlq : s.dlq.stores = if fault ≠ .copying ∧ 2 ≤ n then (appendedTo env m dlq).stores
    else dlq.stores

theorem copying_progress (recorded : Recorded origin c m location) (n : Nat) :
    Progress env .copying c m location origin dlq n (after env .copying c m origin dlq n) := by
  have one : after env .copying c m origin dlq 1 = ⟨origin,dlq,.returned⟩ := by
    simp [after, step]
  have two : after env .copying c m origin dlq 2 = ⟨origin,dlq,.submitted (location, m.uuid)⟩ := by
    rw [after, one]
    simp [step, recorded.persistent, recorded.located]
  have last : ∀ k, after env .copying c m origin dlq (k + 3) =
      ⟨origin.removeRecord c.storage (location, m.uuid),dlq,.done⟩ := by
    intro k
    induction k with
    | zero =>
      rw [after, two]
      rfl
    | succ k ih =>
      rw [after, ih]
      rfl
  rcases n with _ | _ | _ | n
  · exact ⟨rfl, rfl⟩
  · rw [one]
    exact ⟨rfl, rfl⟩
  · rw [two]
    exact ⟨rfl, rfl⟩
  · rw [last]
    exact ⟨by simp [removedAfter], by simp⟩

theorem appending_progress (recorded : Recorded origin c m location) (copies : fault ≠ .copying)
    (n : Nat) : Progress env fault c m location origin dlq n (after env fault c m origin dlq n) := by
  have persistent : (deadLetterCopy m dlq.nextOid).isPersistent = true := recorded.persistent
  have one : after env fault c m origin dlq 1 =
      ⟨origin,{ dlq with nextOid := dlq.nextOid + 1 },.copied (deadLetterCopy m dlq.nextOid)⟩ := by
    simp [after, step, copies]
  obtain ⟨copy, two⟩ : ∃ copy, after env fault c m origin dlq 2 =
      ⟨origin,appendedTo env m dlq,.appended copy⟩ := by
    rw [after, one]
    simp only [step, persistent, if_true]
    exact ⟨_, rfl⟩
  obtain ⟨dlq₃, stores, three⟩ : ∃ dlq₃, dlq₃.stores = (appendedTo env m dlq).stores ∧
      after env fault c m origin dlq 3 = ⟨origin,dlq₃,.returned⟩ := by
    rw [after, two]
    simp only [step]
    split
    · exact ⟨_, rfl, rfl⟩
    · refine ⟨_, ?_, rfl⟩
      split
      · exact enqueueOrSchedule_stores env _ _ _
      · rfl
  have four : after env fault c m origin dlq 4 =
      ⟨origin,dlq₃,.submitted (location, m.uuid)⟩ := by
    rw [after, three]
    simp [step, recorded.persistent, recorded.located]
  have last : ∀ k, after env fault c m origin dlq (k + 5) =
      ⟨origin.removeRecord c.storage (location, m.uuid),dlq₃,.done⟩ := by
    intro k
    induction k with
    | zero =>
      rw [after, four]
      rfl
    | succ k ih =>
      rw [after, ih]
      rfl
  rcases n with _ | _ | _ | _ | _ | n
  · exact ⟨by simp [after, removedAfter, copies], by simp [after]⟩
  · rw [one]
    exact ⟨by simp [removedAfter, copies], by simp⟩
  · rw [two]
    exact ⟨by simp [removedAfter, copies], by simp [copies]⟩
  · rw [three]
    exact ⟨by simp [removedAfter, copies], by simp [copies, stores]⟩
  · rw [four]
    exact ⟨by simp [removedAfter, copies], by simp [copies, stores]⟩
  · rw [last]
    exact ⟨by simp [removedAfter, copies], by simp [copies, stores]⟩

theorem progress_after (recorded : Recorded origin c m location) (n : Nat) :
    Progress env fault c m location origin dlq n (after env fault c m origin dlq n) := by
  by_cases copies : fault = .copying
  · subst copies
    exact copying_progress recorded n
  · exact appending_progress recorded copies n

end Steps

theorem transfer_complete {env : Env} {c : Consumer} {origin dlq : Destination} {m : Message}
    (closing : Bool) {location : Nat} (recorded : Recorded origin c (countRedelivery m) location)
    (limited : 0 ≤ origin.redeliveryPolicy.maxRedeliveries)
    (past : origin.redeliveryPolicy.maxRedeliveries < m.content.headers.deliveryCount + 1) :
    (after env .never c (countRedelivery m) origin dlq 5).origin =
        (origin.redeliver env c closing m).1 ∧
      (origin.redeliver env c closing m).2 = some (countRedelivery m) ∧
      (after env .never c (countRedelivery m) origin dlq 5).dlq =
        acceptDeadLetter env (countRedelivery m) dlq := by
  have persistent := recorded.persistent
  have copied : (deadLetterCopy (countRedelivery m) dlq.nextOid).isPersistent = true := persistent
  have over_ : 0 ≤ origin.redeliveryPolicy.maxRedeliveries ∧
      origin.redeliveryPolicy.maxRedeliveries < (countRedelivery m).content.headers.deliveryCount :=
    ⟨limited, past⟩
  refine ⟨?_, ?_, ?_⟩
  · have progress : Progress env .never c (countRedelivery m) location origin dlq 5
        (after env .never c (countRedelivery m) origin dlq 5) := progress_after recorded 5
    rw [progress.origin]
    simp [removedAfter, Destination.redeliver, over_, Destination.dropRecord, persistent,
      Destination.removeLocated, recorded.located]
  · simp [Destination.redeliver, over_]
  · simp [after, step, acceptDeadLetter, copied, persistent, recorded.located]

def overdue : Destination :=
  (({ type := .Queue, redeliveryPolicy := { maxRedeliveries := 0, deadLetterQueue := some 1 } } :
    Destination).appendRecord calm .shared 7 (letter 0 7).content).1

def reader : Consumer := ⟨.CLIENT_ACKNOWLEDGE,.shared,.shared,none,[],.empty,[]⟩

def overdueLetter : Message := { letter 0 7 with location := some 0 }

theorem overdue_recorded : Recorded overdue reader (countRedelivery overdueLetter) 0 where
  persistent := rfl
  located := rfl
  live := ⟨⟨7,(letter 0 7).content,false⟩, by decide, rfl⟩

end TinyMqDeadLetters
