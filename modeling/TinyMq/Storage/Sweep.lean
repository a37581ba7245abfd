import TinyMq.Storage.Refinement
import Mathlib.Data.List.Sort

/-!
The expiration sweep of the storage worker: `Storage::scanPrefix`, which reads
the first bytes of a bounded number of records from a cursor on, and
`sweepExpired`, which removes the expired ones among them.
-/
namespace TinyMqSweep
open ByteStrings TombstoneLog TinyMqTom TinyMqStorage TinyMqLogImage TinyMqRefinement

structure SweepCursor where
  tomId : Nat := 0
  offset : Nat := 0
  deriving DecidableEq, Repr

/-- A failed read gives no bytes and leaves the stream failed. -/
def dataPrefix (t : Tom) (r : Record) (len : Nat) : Tom × Bytes :=
  let n := min len r.header.dataSize
  if n = 0 then (t, [])
  else
    let (f, bs) := t.tomF.read (r.offset + headerSize) n
    let t := { t with tomF := f }
    if f.good then (t, bs) else (t, [])

/-- How the loop over one tom ends: at `maxRecords`, with the offset to go on
    from, or behind the last record, with what is left of the budget. -/
inductive Chunk where
  | full (offset : Nat)
  | ended (budget : Nat)
  deriving DecidableEq

def prefixVisit (len : Nat) (t : Tom) (r : Record) (result : List (Record × Bytes)) :
    Tom × List (Record × Bytes) :=
  match dataPrefix t r len with
  | (t, []) => (t, result)
  | (t, bs) => (t, result ++ [(r, bs)])

/-- The record loop of one tom; a deleted record counts against the budget too. -/
def scanTom (len : Nat) : Nat → Tom → Nat → List (Record × Bytes) →
    Tom × Except StorageError (List (Record × Bytes) × Chunk)
  | 0, t, offset, result => (t, .ok (result, .full offset))
  | budget + 1, t, offset, result =>
    match t.record offset with
    | (t, .error e) => (t, .error e)
    | (t, .ok r) =>
      if r.tomId = noTom ∨ r.header.dataSize = 0 then (t, .ok (result, .ended (budget + 1)))
      else
        let (t, result) := if r.header.deleted = 0 then prefixVisit len t r result else (t, result)
        scanTom len budget t (offset + headerSize + r.header.dataSize) result

/-- The loop over the sorted tom ids; `resuming` skips those before the cursor. -/
def scanToms (len : Nat) (cursor : SweepCursor) :
    List Nat → Bool → Nat → Storage → List (Record × Bytes) →
    Storage × Except StorageError (List (Record × Bytes) × SweepCursor)
  | [], _, _, s, result => (s, .ok (result, {}))
  | id :: ids, resuming, budget, s, result =>
    if resuming ∧ id < cursor.tomId then scanToms len cursor ids resuming budget s result
    else
      match s.tom id with
      | none => (s, .error .outOfRange)
      | some t =>
        let offset := if resuming ∧ id = cursor.tomId then cursor.offset else 0
        match scanTom len budget t offset result with
        | (t, .error e) => (s.setTom t, .error e)
        | (t, .ok (result, .full offset)) => (s.setTom t, .ok (result, ⟨id,offset⟩))
        | (t, .ok (result, .ended budget)) =>
          scanToms len cursor ids false budget (s.setTom t) result

def scanPrefix (s : Storage) (prefixLen maxRecords : Nat) (cursor : SweepCursor) :
    Storage × Except StorageError (List (Record × Bytes) × SweepCursor) :=
  scanToms prefixLen cursor ((s.toms.map (·.id)).insertionSort (· ≤ ·)) true maxRecords s []

def kMagicOffset : Nat := 1

/-- Behind type, magic, number, uuid, reliability and timestamp. -/
def kExpirationOffset : Nat := 1 + 1 + 8 + 16 + 1 + 8

def kPrefixLen : Nat := kExpirationOffset + 8

def kSweepBudget : Nat := 4096

/-- The `int64` at its fixed place in the header block. -/
def expirationAt (head : Bytes) : Int :=
  (BitVec.ofNat 64 (leNat (slice kExpirationOffset 8 head))).toInt

def Expired (nowMs : Int) (head : Bytes) : Prop :=
  kPrefixLen ≤ head.length ∧ head.getD kMagicOffset 0 = 2 ∧
    expirationAt head ≠ 0 ∧ expirationAt head ≤ nowMs

instance (nowMs : Int) (head : Bytes) : Decidable (Expired nowMs head) :=
  inferInstanceAs (Decidable (_ ∧ _ ∧ _ ∧ _))

def removeExpired (nowMs : Int) :
    List (Record × Bytes) → List (Option Nat) → Storage → Storage × Except StorageError Unit
  | [], _, s => (s, .ok ())
  | (r, head) :: batch, faults, s =>
    if Expired nowMs head then
      match s.remove r (faults.headD none) with
      | (s, .error e) => (s, .error e)
      | (s, .ok _) => removeExpired nowMs batch faults.tail s
    else removeExpired nowMs batch faults s

/-- An exception of the scan leaves the cursor where it was. -/
def sweepExpired (nowMs : Int) (s : Storage) (cursor : SweepCursor) (faults : List (Option Nat)) :
    Storage × SweepCursor × Except StorageError Unit :=
  match scanPrefix s kPrefixLen kSweepBudget cursor with
  | (s, .error e) => (s, cursor, .error e)
  | (s, .ok (batch, cursor)) =>
    let (s, result) := removeExpired nowMs batch faults s
    (s, cursor, result)

theorem dataPrefix_entry {t : Tom} {before after : Bytes} {e : Entry UUID Payload}
    (intact : Intact t (before ++ entryBytes e ++ after)) {len : Nat} (some_ : 0 < len) :
    dataPrefix t (recordFor t.id before.length e) len = (t, e.data.bytes.take len) := by
  let part := e.data.bytes.take len
  have size : part.length = min len e.data.bytes.length := List.length_take
  have positive : min len e.data.bytes.length ≠ 0 := by have := e.data.length_pos; omega
  have layout : t.tomF.bytes =
      (before ++ headerBytes (headerFor e)) ++ part ++ (e.data.bytes.drop len ++ after) := by
    rw [intact.content, entryBytes]
    nth_rewrite 1 [← List.take_append_drop len e.data.bytes]
    simp only [part, List.append_assoc]
  have read := read_inside intact.good layout
  rw [List.length_append, headerBytes_length, size] at read
  have header : (recordFor t.id before.length e).header.dataSize = e.data.bytes.length := rfl
  have place : (recordFor t.id before.length e).offset = before.length := rfl
  simp only [dataPrefix, header, place, if_neg positive, read, intact.good, if_true, part]

def heads (len : Nat) (records : List (Record × Bytes)) : List (Record × Bytes) :=
  records.map fun x => (x.1, x.2.take len)

theorem prefixVisit_entry {t : Tom} {before after : Bytes} {e : Entry UUID Payload}
    (intact : Intact t (before ++ entryBytes e ++ after)) {len : Nat} (some_ : 0 < len)
    (result : List (Record × Bytes)) :
    prefixVisit len t (recordFor t.id before.length e) result =
      (t, result ++ [(recordFor t.id before.length e, e.data.bytes.take len)]) := by
  have nonempty : e.data.bytes.take len ≠ [] := by
    have := e.data.length_pos
    rw [← List.length_pos_iff, List.length_take]
    omega
  rw [prefixVisit, dataPrefix_entry intact some_]
  split
  · rename_i none_
    exact absurd (Prod.mk.inj none_).2 nonempty
  · rename_i same
    rw [← (Prod.mk.inj same).1, ← (Prod.mk.inj same).2]

/- Over the bytes of a log, from the boundary of an entry on, the loop takes one
   unit of the budget for each entry and one record for each live entry. -/
theorem scanTom_entries {t : Tom} {len : Nat} (some_ : 0 < len) (log : RecordLog) (before : Bytes)
    (intact : Intact t (before ++ logBytes log)) (budget : Nat) (result : List (Record × Bytes)) :
    scanTom len budget t before.length result =
      (t, .ok (result ++ heads len (liveFrom t.id before.length (log.take budget)),
        if budget ≤ log.length then .full (before.length + (logBytes (log.take budget)).length)
        else .ended (budget - log.length))) := by
  induction budget generalizing log before result with
  | zero => simp [scanTom, liveFrom, heads]
  | succ budget ih =>
    cases log with
    | nil =>
      have behind : t.size ≤ before.length := by
        rw [intact.sized]
        simp
      simp [scanTom, record_behind_end behind, liveFrom, heads]
    | cons e rest =>
      have split : before ++ logBytes (e :: rest) = before ++ entryBytes e ++ logBytes rest := by simp
      rw [split] at intact
      have goes := entry_goes_on intact.real before.length e
      have later := ih rest (before ++ entryBytes e) (by simpa using intact)
      have place : (before ++ entryBytes e).length = before.length + entrySize e := by simp
      have spent : (if budget + 1 ≤ (e :: rest).length then
            Chunk.full (before.length + (logBytes ((e :: rest).take (budget + 1))).length)
          else .ended (budget + 1 - (e :: rest).length)) =
          if budget ≤ rest.length then
            .full ((before ++ entryBytes e).length + (logBytes (rest.take budget)).length)
          else .ended (budget - rest.length) := by
        simp [Nat.add_assoc]
      simp only [scanTom, record_at_entry intact, if_neg goes, behind_entry, spent]
      cases removed : e.removed with
      | true =>
        have flag : (recordFor t.id before.length e).header.deleted ≠ 0 := by
          simp [recordFor, headerFor, flagOf, removed]
        rw [if_neg flag, later]
        simp [liveFrom, removed, place]
      | false =>
        have flag : (recordFor t.id before.length e).header.deleted = 0 := by
          simp [recordFor, headerFor, flagOf, removed]
        rw [if_pos flag, prefixVisit_entry intact some_]
        dsimp only
        rw [later]
        simp [liveFrom, removed, place, heads]

/-- The pass stands behind the entries `a` of the log. -/
def Stands (cursor : SweepCursor) (a : RecordLog) : Prop :=
  cursor.tomId < firstTom ∧ a = [] ∨ cursor = ⟨firstTom,(logBytes a).length⟩

/-- Where the next call goes on: behind the chunk, or at the front again. -/
def cursorAfter (budget : Nat) (a rest : RecordLog) : SweepCursor :=
  if budget ≤ rest.length then ⟨firstTom,(logBytes (a ++ rest.take budget)).length⟩ else {}

theorem cursorAfter_stands (budget : Nat) (a rest : RecordLog) :
    Stands (cursorAfter budget a rest) (a ++ rest.take budget) ∨
      rest.length < budget ∧ Stands (cursorAfter budget a rest) [] := by
  unfold cursorAfter
  split
  · exact Or.inl (Or.inr rfl)
  · exact Or.inr ⟨by omega, Or.inl ⟨by decide, rfl⟩⟩

theorem scanPrefix_represents {s : Storage} {a rest : RecordLog} (rep : Represents s (a ++ rest))
    {cursor : SweepCursor} (stands : Stands cursor a) {len budget : Nat} (some_ : 0 < len)
    (positive : 0 < budget) :
    scanPrefix s len budget cursor =
      (s, .ok (heads len (liveFrom firstTom (logBytes a).length (rest.take budget)),
        cursorAfter budget a rest)) := by
  rcases rep.toms with ⟨empty, _, none_⟩ | ⟨t, one, _, id, intact⟩
  · obtain ⟨rfl, rfl⟩ := List.append_eq_nil_iff.mp none_
    have beyond : ¬ budget ≤ 0 := by omega
    simp [scanPrefix, empty, scanToms, liveFrom, heads, cursorAfter, beyond]
  · have found : s.tom firstTom = some t := by simp [Storage.tom, one, id]
    have reached : ¬ firstTom < cursor.tomId := by
      rcases stands with ⟨before, _⟩ | here
      · omega
      · simp [here]
    have place : (if firstTom = cursor.tomId then cursor.offset else 0) = (logBytes a).length := by
      rcases stands with ⟨before, front⟩ | here
      · rw [if_neg (by omega), front]
        rfl
      · simp [here]
    rw [logBytes_append] at intact
    have chunk := scanTom_entries some_ rest (logBytes a) intact budget []
    rw [id] at chunk
    have ids : (s.toms.map (·.id)).insertionSort (· ≤ ·) = [firstTom] := by
      rw [one, List.map_singleton, id]
      rfl
    rw [List.nil_append] at chunk
    rw [scanPrefix, ids]
    simp only [scanToms, true_and, if_neg reached, found, place, chunk]
    by_cases full : budget ≤ rest.length
    · simp [full, cursorAfter, setTom_same one]
    · simp [full, cursorAfter, setTom_same one]

def expire (nowMs : Int) (e : Entry UUID Payload) : Entry UUID Payload :=
  if Expired nowMs (e.data.bytes.take kPrefixLen) then { e with removed := true } else e

theorem removeExpired_represents (nowMs : Int) {s : Storage} {a window c : RecordLog}
    (rep : Represents s (a ++ window ++ c)) :
    ∃ s', removeExpired nowMs (heads kPrefixLen (liveFrom firstTom (logBytes a).length window)) [] s =
        (s', .ok ()) ∧
      Represents s' (a ++ window.map (expire nowMs) ++ c) := by
  induction window generalizing a s with
  | nil => exact ⟨s, rfl, by simpa using rep⟩
  | cons e window ih =>
    have goesOn : ∀ s₁ e₁, entrySize e₁ = entrySize e → Represents s₁ (a ++ e₁ :: (window ++ c)) →
        ∃ s', removeExpired nowMs
            (heads kPrefixLen (liveFrom firstTom ((logBytes a).length + entrySize e) window)) [] s₁ =
              (s', .ok ()) ∧
          Represents s' (a ++ e₁ :: (window.map (expire nowMs) ++ c)) := by
      intro s₁ e₁ size rep₁
      have later := ih (a := a ++ [e₁]) (s := s₁) (by simpa using rep₁)
      simpa [size] using later
    have here : Represents s (a ++ e :: (window ++ c)) := by simpa using rep
    simp only [List.map_cons, List.append_assoc, List.cons_append]
    cases removed : e.removed with
    | true =>
      have same : expire nowMs e = e := by
        unfold expire
        split
        · rw [← removed]
        · rfl
      rw [same]
      simpa [liveFrom, removed] using goesOn s e rfl here
    | false =>
      have first : heads kPrefixLen (liveFrom firstTom (logBytes a).length (e :: window)) =
          (recordFor firstTom (logBytes a).length e, e.data.bytes.take kPrefixLen) ::
            heads kPrefixLen (liveFrom firstTom ((logBytes a).length + entrySize e) window) := by
        simp [liveFrom, removed, heads]
      rw [first]
      by_cases expired : Expired nowMs (e.data.bytes.take kPrefixLen)
      · have points : PointsAt (recordFor firstTom (logBytes a).length e) (logBytes a).length e :=
          ⟨rfl, rfl, Or.inl rfl, by simp [recordFor, headerFor, flagOf, removed]⟩
        obtain ⟨s₁, r, done, _, rep₁⟩ := remove_represents here points
        have left : expire nowMs e = { e with removed := true } := if_pos expired
        rw [left]
        simpa [removeExpired, expired, done] using goesOn s₁ { e with removed := true } rfl rep₁
      · have left : expire nowMs e = e := if_neg expired
        rw [left]
        simpa [removeExpired, expired] using goesOn s e rfl here

/- One sweep of an intact storage: the expired entries of the chunk are removed,
   nothing else changes, and the cursor stands behind the chunk. -/
theorem sweepExpired_represents (nowMs : Int) {s : Storage} {a rest : RecordLog}
    (rep : Represents s (a ++ rest)) {cursor : SweepCursor} (stands : Stands cursor a) :
    ∃ s', sweepExpired nowMs s cursor [] = (s', cursorAfter kSweepBudget a rest, .ok ()) ∧
      Represents s' (a ++ (rest.take kSweepBudget).map (expire nowMs) ++ rest.drop kSweepBudget) := by
  have head : 0 < kPrefixLen := by decide
  have positive : 0 < kSweepBudget := by decide
  have scanned := scanPrefix_represents rep stands head positive
  have split : Represents s (a ++ rest.take kSweepBudget ++ rest.drop kSweepBudget) := by
    simpa using rep
  obtain ⟨s', removed, rep'⟩ := removeExpired_represents nowMs split
  refine ⟨s', ?_, rep'⟩
  simp only [sweepExpired, scanned, removed]

end TinyMqSweep
