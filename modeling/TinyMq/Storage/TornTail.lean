import TinyMq.Storage.StorageRuns

/-!
A crash inside an append. The last append's bytes reach the disk up to some
byte, everything before is complete. The constructor, the index loop, the scan
and the next append each meet the torn tail in another way.
-/
namespace TinyMqTornTail
open ByteStrings TombstoneLog TinyMqTom TinyMqStorage TinyMqLogImage TinyMqRefinement
open TinyMqStorageRuns Machines

/-- The directory a crash leaves when `k` bytes of an append were written. -/
def crashDisk (s : Storage) (u : UUID) (d : Payload) (k : Nat) : Directory :=
  (s.append u d.bytes (some k)).1.directory

/-- The log of the completed appends: the last one counts when all its bytes are there. -/
def completed (log : RecordLog) (u : UUID) (d : Payload) (k : Nat) : RecordLog :=
  if k = headerSize + d.bytes.length then append log u d else log

/-- The storage opens on the directory, shows the log, and every later run of it
    is answered as the log says, with scans and reopenings anywhere in between. -/
def CrashConsistent (log : RecordLog) (dir : Directory) : Prop :=
  ∃ s, Storage.construct dir = .ok s ∧ s.scan.2 = .ok (liveFrom firstTom 0 log) ∧
    ∀ later, Meets specLog Admissible log later →
      Answers specLog Answered log later (outputs step s later) ∧
      (run s later).scan.2 = .ok (liveFrom firstTom 0 (specRun log later))

theorem crashDisk_represents {s : Storage} {log : RecordLog} (rep : Represents s log)
    (u : UUID) (d : Payload) (k : Nat) :
    crashDisk s u d k = [(firstTom, logBytes log ++ (entryBytes ⟨u,d,false⟩).take k)] := by
  have filled : d.bytes.isEmpty = false := by simpa using d.nonempty
  obtain ⟨s₁, t, found, one, current, sameIndex, id, intact⟩ := currentTom_filed rep.toms
  have torn : t.tomF.write t.size (entryBytes ⟨u,d,false⟩) (some k) =
      ⟨logBytes log ++ (entryBytes ⟨u,d,false⟩).take k,false⟩ := by
    rw [FileStream.write, if_pos intact.good, intact.sized, intact.content, overwrite_end]
  have bytes : headerBytes ⟨u,d.bytes.length,0⟩ ++ d.bytes = entryBytes ⟨u,d,false⟩ := rfl
  simp only [crashDisk, Storage.append, filled, found, Tom.append, bytes, torn]
  simp [Storage.directory, Storage.setTom, one, id]

theorem clean_crash_consistent {log : RecordLog} (distinct : (keys log).Nodup)
    (named : 0 ∉ keys log) : CrashConsistent log [(firstTom, logBytes log)] := by
  obtain ⟨s, opened, rep⟩ := construct_log distinct named
  refine ⟨s, opened, by rw [scan_filed rep.toms], ?_⟩
  intro later ok
  obtain ⟨answers, rep'⟩ := run_refines rep ok
  exact ⟨answers, by rw [scan_filed rep'.toms]⟩

/- A tail too short for a header: the index loop of the constructor throws on it. -/
theorem torn_header_rejected (log : RecordLog) {tail : Bytes} (some : tail ≠ [])
    (short : tail.length < headerSize) :
    Storage.construct [(firstTom, logBytes log ++ tail)] = .error .readHeaderFailed := by
  let t := Tom.create firstTom (logBytes log ++ tail)
  have intact : Intact t (logBytes log ++ tail) := ⟨rfl,rfl,rfl,firstTom_real⟩
  obtain ⟨fuel, spent, _⟩ := walk_fuel intact
  have entries := walk_entries indexVisit_entry log [] tail (by simpa using intact) (fuel + 1)
    fun _ => none
  have positive : 0 < tail.length := List.length_pos_iff.mpr some
  have inside : (logBytes log).length < t.size := by
    rw [intact.sized, List.length_append]
    omega
  have unreadable : ¬ (t.tomF.good = true ∧
      (logBytes log).length + headerSize ≤ t.tomF.bytes.length) := by
    rw [intact.content, List.length_append]
    omega
  have thrown : t.record (logBytes log).length =
      ({ t with tomF := { t.tomF with good := false } }, .error .readHeaderFailed) := by
    simp [Tom.record, inside, FileStream.read, unreadable]
  simp only [List.length_nil, Nat.zero_add] at entries
  have opened : [(firstTom, logBytes log ++ tail)].foldl Storage.preOpen ⟨0,[],fun _ => none⟩ =
      ⟨firstTom,[t],fun _ => none⟩ := rfl
  rw [Storage.construct, opened]
  simp only [Storage.rebuildIndex, walkToms, spent, entries]
  simp [walkTom, thrown]

/- The tail of a torn append whose header is complete and whose data is not. -/
structure TornData (e : Entry UUID Payload) (tail part : Bytes) : Prop where
  header : tail = headerBytes (headerFor e) ++ part
  short : part.length < e.data.bytes.length
  alive : e.removed = false

theorem TornData.length {e : Entry UUID Payload} {tail part : Bytes}
    (torn : TornData e tail part) : tail.length = headerSize + part.length := by
  rw [torn.header, List.length_append, headerBytes_length]

theorem torn_record {t : Tom} {log : RecordLog} {e : Entry UUID Payload} {tail part : Bytes}
    (intact : Intact t (logBytes log ++ tail)) (torn : TornData e tail part) :
    t.record (logBytes log).length = (t, .ok (recordFor t.id (logBytes log).length e)) := by
  have inside : (logBytes log).length < t.size := by
    rw [intact.sized, List.length_append, torn.length, headerSize]
    omega
  have layout : t.tomF.bytes = logBytes log ++ headerBytes (headerFor e) ++ part := by
    rw [intact.content, torn.header, List.append_assoc]
  have read := read_inside intact.good layout
  rw [headerBytes_length] at read
  simp only [Tom.record, if_pos inside, read, intact.good, if_true]
  rw [headerOf_headerBytes e.data.bounded]
  rfl

def poisoned (t : Tom) : Tom := { t with tomF := { t.tomF with good := false } }

theorem torn_data {t : Tom} {log : RecordLog} {e : Entry UUID Payload} {tail part : Bytes}
    (intact : Intact t (logBytes log ++ tail)) (torn : TornData e tail part) :
    t.data (recordFor t.id (logBytes log).length e) = (poisoned t, .error .readDataFailed) := by
  have positive : e.data.bytes.length ≠ 0 := by have := e.data.length_pos; omega
  have unreadable : t.tomF.read ((logBytes log).length + headerSize) e.data.bytes.length =
      ({ t.tomF with good := false }, []) := by
    have short := torn.short
    rw [FileStream.read, if_neg]
    rw [intact.content, List.length_append, torn.length]
    omega
  simp [Tom.data, recordFor, headerFor, positive, unreadable, poisoned]

/- Either loop passes the log, reads the torn header as a live record, hands it to
   its visitor and ends behind the file. -/
theorem walk_torn {σ : Type} {visit : Tom → Record → σ → Tom × σ}
    {f : σ → Record × Bytes → σ} {t t' : Tom}
    (visits : ∀ (before after : Bytes) (e : Entry UUID Payload) (acc : σ),
      Intact t (before ++ entryBytes e ++ after) →
      visit t (recordFor t.id before.length e) acc =
        (t, f acc (recordFor t.id before.length e, e.data.bytes)))
    {log : RecordLog} {e : Entry UUID Payload} {tail part : Bytes}
    (intact : Intact t (logBytes log ++ tail)) (torn : TornData e tail part) {acc result : σ}
    (last : visit t (recordFor t.id (logBytes log).length e)
      ((liveFrom t.id 0 log).foldl f acc) = (t', result)) (sized : t'.size = t.size) :
    walkTom visit (t.size + 1) t 0 acc = (t', .ok result) := by
  obtain ⟨fuel, spent, room⟩ := walk_fuel intact
  have entries := walk_entries visits log [] tail (by simpa using intact) (fuel + 1) acc
  have head := torn_record intact torn
  have goes : ¬ ((recordFor t.id (logBytes log).length e).tomId = noTom ∨
      (recordFor t.id (logBytes log).length e).header.dataSize = 0) := by
    rintro (none | empty)
    · exact intact.real none
    · have := e.data.length_pos
      simp only [recordFor, headerFor] at empty
      omega
  have flag : (recordFor t.id (logBytes log).length e).header.deleted = 0 := by
    simp [recordFor, headerFor, flagOf, torn.alive]
  have behind : t'.size ≤ (logBytes log).length + headerSize +
      (recordFor t.id (logBytes log).length e).header.dataSize := by
    have short := torn.short
    rw [sized, intact.sized, List.length_append, torn.length]
    simp only [recordFor, headerFor]
    omega
  obtain ⟨more, rfl⟩ : ∃ n, fuel = n + 1 := by
    rw [torn.length, headerSize] at room
    exact ⟨fuel - 1, by omega⟩
  simp only [List.length_nil, Nat.zero_add] at entries
  rw [spent, entries, walkTom]
  simp only [head, if_neg goes, flag, if_true, last]
  rw [walkTom, record_behind_end behind]
  simp

theorem construct_torn (log : RecordLog) {e : Entry UUID Payload} {tail part : Bytes}
    (torn : TornData e tail part) :
    ∃ index, Storage.construct [(firstTom, logBytes log ++ tail)] =
      .ok ⟨firstTom,[Tom.create firstTom (logBytes log ++ tail)],index⟩ := by
  let t := Tom.create firstTom (logBytes log ++ tail)
  have intact : Intact t (logBytes log ++ tail) := ⟨rfl,rfl,rfl,firstTom_real⟩
  let r := recordFor t.id (logBytes log).length e
  let index := Function.update ((liveFrom t.id 0 log).foldl indexStep fun _ => none)
    r.header.uuid (some r)
  have last : indexVisit t r ((liveFrom t.id 0 log).foldl indexStep fun _ => none) =
      (t, index) := rfl
  have walked := walk_torn indexVisit_entry intact torn last rfl
  have opened : [(firstTom, logBytes log ++ tail)].foldl Storage.preOpen ⟨0,[],fun _ => none⟩ =
      ⟨firstTom,[t],fun _ => none⟩ := rfl
  refine ⟨index, ?_⟩
  rw [Storage.construct, opened]
  simp only [Storage.rebuildIndex, walkToms, walked]
  rfl

theorem scan_torn (log : RecordLog) {e : Entry UUID Payload} {tail part : Bytes}
    (torn : TornData e tail part) (index : UUID → Option Record) :
    (⟨firstTom,[Tom.create firstTom (logBytes log ++ tail)],index⟩ : Storage).scan =
      (⟨firstTom,[poisoned (Tom.create firstTom (logBytes log ++ tail))],index⟩,
        .ok (liveFrom firstTom 0 log)) := by
  let t := Tom.create firstTom (logBytes log ++ tail)
  have intact : Intact t (logBytes log ++ tail) := ⟨rfl,rfl,rfl,firstTom_real⟩
  have last : scanVisit t (recordFor t.id (logBytes log).length e)
      ((liveFrom t.id 0 log).foldl (fun acc x => acc ++ [x]) []) =
      (poisoned t, liveFrom t.id 0 log) := by
    rw [foldl_snoc, List.nil_append, scanVisit, torn_data intact torn]
  have walked := walk_torn (f := fun acc x => acc ++ [x]) scanVisit_entry intact torn last rfl
  simp only [Storage.scan, walkToms, t] at walked ⊢
  rw [walked]
  rfl

theorem scan_poisoned {t : Tom} (filled : 0 < t.size) (current : Nat)
    (index : UUID → Option Record) :
    (⟨current,[poisoned t],index⟩ : Storage).scan.2 = .error .readHeaderFailed := by
  have thrown : (poisoned t).record 0 = (poisoned t, .error .readHeaderFailed) := by
    have inside : t.size ≠ 0 := by omega
    simp [Tom.record, inside, FileStream.read, poisoned]
  simp [Storage.scan, walkToms, walkTom, thrown]

theorem torn_data_inconsistent (log : RecordLog) {e : Entry UUID Payload} {tail part : Bytes}
    (torn : TornData e tail part) : ¬ CrashConsistent log [(firstTom, logBytes log ++ tail)] := by
  rintro ⟨s, opened, _, later⟩
  obtain ⟨index, built⟩ := construct_torn log torn
  obtain rfl : s = _ := Except.ok.inj (opened.symm.trans built)
  have filled : 0 < (Tom.create firstTom (logBytes log ++ tail)).size := by
    simp only [Tom.create, List.length_append, torn.length, headerSize]
    omega
  have again := (later [.scan] ⟨trivial, trivial⟩).2
  simp only [run, List.foldl_cons, List.foldl_nil, step, scan_torn log torn] at again
  rw [scan_poisoned filled] at again
  cases again

theorem torn_tail_inconsistent (log : RecordLog) (u : UUID) (d : Payload) {k : Nat}
    (cut : 0 < k) (torn : k < headerSize + d.bytes.length) :
    ¬ CrashConsistent log [(firstTom, logBytes log ++ (entryBytes ⟨u,d,false⟩).take k)] := by
  have size : (entryBytes ⟨u,d,false⟩).length = headerSize + d.bytes.length := by
    simp [entrySize]
  have length : ((entryBytes ⟨u,d,false⟩).take k).length = k := by
    rw [List.length_take, size]
    omega
  by_cases header : k < headerSize
  · rintro ⟨s, opened, _⟩
    have nonempty : (entryBytes ⟨u,d,false⟩).take k ≠ [] := by
      intro empty
      rw [empty] at length
      simp at length
      omega
    rw [torn_header_rejected log nonempty (by omega)] at opened
    cases opened
  · have split : (entryBytes ⟨u,d,false⟩).take k =
        headerBytes (headerFor ⟨u,d,false⟩) ++ d.bytes.take (k - headerSize) := by
      rw [entryBytes, List.take_append, headerBytes_length, List.take_of_length_le]
      rw [headerBytes_length]
      omega
    refine torn_data_inconsistent log (e := ⟨u,d,false⟩) ⟨split, ?_, rfl⟩
    simp only [List.length_take]
    omega

/- The exact cuts a crash may leave: none of the last append's bytes, or all of them. -/
theorem crash_consistent_iff (ops : List Op) (ok : Meets specLog Admissible [] ops)
    (u : UUID) (d : Payload) (new : u ∉ keys (specRun [] ops)) (real : u ≠ 0)
    (k : Nat) (bound : k ≤ headerSize + d.bytes.length) :
    CrashConsistent (completed (specRun [] ops) u d k) (crashDisk (run fresh ops) u d k) ↔
      k = 0 ∨ k = headerSize + d.bytes.length := by
  have rep := (run_refines fresh_represents ok).2
  rw [crashDisk_represents rep]
  constructor
  · intro consistent
    by_contra torn
    rw [completed, if_neg (by omega)] at consistent
    exact torn_tail_inconsistent _ u d (by omega) (by omega) consistent
  · rintro (none | all)
    · subst none
      rw [completed, if_neg (by simp only [headerSize]; omega), List.take_zero, List.append_nil]
      exact clean_crash_consistent rep.distinct rep.named
    · subst all
      obtain ⟨_, _, appended⟩ := append_represents rep d new real
      have whole : (entryBytes ⟨u,d,false⟩).take (headerSize + d.bytes.length) =
          entryBytes ⟨u,d,false⟩ := List.take_of_length_le (by simp [entrySize])
      have image : logBytes (specRun [] ops) ++ entryBytes ⟨u,d,false⟩ =
          logBytes (append (specRun [] ops) u d) := by simp [append]
      rw [completed, if_pos rfl, whole, image]
      exact clean_crash_consistent appended.distinct appended.named

theorem crash_consistent_iff_sample :
    CrashConsistent (append [⟨1,oneByte 7,false⟩] 2 (oneByte 9))
      (crashDisk (run fresh [.append 1 (oneByte 7)]) 2 (oneByte 9) 33) :=
  (crash_consistent_iff [.append 1 (oneByte 7)] ⟨⟨by decide, by decide⟩, trivial⟩ 2 (oneByte 9) (by decide)
    (by decide) 33 (by decide)).mpr (Or.inr rfl)

/- One byte of the first append's header on disk: the constructor throws. -/
theorem torn_header_crash :
    ¬ CrashConsistent (completed (specRun [] []) 1 (oneByte 7) 1)
      (crashDisk (run fresh []) 1 (oneByte 7) 1) := by
  have torn := torn_tail_inconsistent [] 1 (oneByte 7) (k := 1) (by decide) (by decide)
  have disk := crashDisk_represents fresh_represents 1 (oneByte 7) 1
  rw [run, List.foldl_nil, disk]
  exact torn

end TinyMqTornTail
