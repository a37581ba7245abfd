import TinyMq.Lib.Machines
import TinyMq.Storage.Refinement

/-!
Whole runs of a `Storage` against the log. The specification machine works on
the log alone; `Admissible` is what the callers promise: fresh non-nil uuids,
and record arguments that came from this storage. A read that runs over the end
of the file is an input failure and not part of these runs.
-/
namespace TinyMqStorageRuns
open ByteStrings TombstoneLog TinyMqTom TinyMqStorage TinyMqLogImage TinyMqRefinement Machines

inductive Op where
  | append (u : UUID) (d : Payload)
  | remove (r : Record)
  | record (u : UUID)
  | recordAt (tomId offset : Nat)
  | data (r : Record)
  | scan
  | reopen

inductive Answer where
  | record (r : Except StorageError Record)
  | removed (r : Except StorageError (Record × Bool))
  | data (d : Except StorageError Bytes)
  | scan (records : Except StorageError (List (Record × Bytes)))
  | opened (e : Except StorageError Unit)

def step (s : Storage) : Op → Storage × Answer
  | .append u d => let (s, r) := s.append u d.bytes none; (s, .record r)
  | .remove r => let (s, r) := s.remove r none; (s, .removed r)
  | .record u => (s, .record (.ok (s.record u)))
  | .recordAt tomId offset => let (s, r) := s.recordAt tomId offset; (s, .record r)
  | .data r => let (s, d) := s.data r; (s, .data d)
  | .scan => let (s, records) := s.scan; (s, .scan records)
  | .reopen =>
    match s.reopen with
    | .ok s => (s, .opened (.ok ()))
    | .error e => (s, .opened (.error e))

def run (s : Storage) (ops : List Op) : Storage := ops.foldl (fun s op => (step s op).1) s

/-- Mark the entry that starts at `offset`; the second argument is where the
    list itself starts. -/
def markFrom (offset : Nat) : Nat → RecordLog → RecordLog
  | _, [] => []
  | here, e :: rest =>
    (if here = offset then { e with removed := true } else e) ::
      markFrom offset (here + entrySize e) rest

def specLog (log : RecordLog) : Op → RecordLog
  | .append u d => append log u d
  | .remove r => if r.tomId = firstTom then markFrom r.offset 0 log else log
  | _ => log

def specRun (log : RecordLog) (ops : List Op) : RecordLog := ops.foldl specLog log

def Admissible (log : RecordLog) : Op → Prop
  | .append u _ => u ∉ keys log ∧ u ≠ 0
  | .remove r => r.tomId ≠ firstTom ∨
      ∃ a e b, log = a ++ e :: b ∧ PointsAt r (logBytes a).length e
  | .recordAt tomId offset => tomId ≠ firstTom ∨
      offset + headerSize ≤ (logBytes log).length ∨ (logBytes log).length ≤ offset
  | .data r => r.tomId ≠ firstTom ∨ ∃ a e b, log = a ++ e :: b ∧
      r.offset = (logBytes a).length ∧ r.header.dataSize = e.data.bytes.length
  | _ => True

def Answered (log : RecordLog) : Op → Answer → Prop
  | .append u d, answer =>
      answer = .record (.ok (recordFor firstTom (logBytes log).length ⟨u,d,false⟩))
  | .remove r, answer => r.tomId = firstTom →
      ∃ r', answer = .removed (.ok (r', true)) ∧ r'.header.deleted ≠ 0
  | .record u, answer => answer = .record (.ok ((lookup (liveFrom firstTom 0 log) u).getD {}))
  | .recordAt tomId offset, answer => ∀ a e b, log = a ++ e :: b →
      tomId = firstTom → offset = (logBytes a).length →
      answer = .record (.ok (recordFor firstTom offset e))
  | .data r, answer => r.tomId = firstTom →
      ∃ a e b, log = a ++ e :: b ∧ r.offset = (logBytes a).length ∧
        answer = .data (.ok e.data.bytes)
  | .scan, answer => answer = .scan (.ok (liveFrom firstTom 0 log))
  | .reopen, answer => answer = .opened (.ok ())

theorem markFrom_past {offset here : Nat} (past : offset < here) (log : RecordLog) :
    markFrom offset here log = log := by
  induction log generalizing here with
  | nil => rfl
  | cons e log ih =>
    have other : here ≠ offset := by omega
    simp [markFrom, other, ih (by omega : offset < here + entrySize e)]

theorem markFrom_split (a b : RecordLog) (e : Entry UUID Payload) (here : Nat) :
    markFrom (here + (logBytes a).length) here (a ++ e :: b) =
      a ++ { e with removed := true } :: b := by
  induction a generalizing here with
  | nil =>
    have size := entrySize_large e
    simp [markFrom, markFrom_past (by omega : here < here + entrySize e)]
  | cons x a ih =>
    have size := entrySize_large x
    have place : here + (logBytes (x :: a)).length = (here + entrySize x) + (logBytes a).length := by
      simp only [logBytes_cons, List.length_append, entryBytes_length]
      omega
    have other : here ≠ (here + entrySize x) + (logBytes a).length := by omega
    rw [place]
    simp [markFrom, other, ih]

theorem markFrom_remove (a b : RecordLog) (e : Entry UUID Payload) :
    markFrom (logBytes a).length 0 (a ++ e :: b) = remove (a ++ e :: b) a.length := by
  have marked := markFrom_split a b e 0
  rw [Nat.zero_add] at marked
  rw [marked, remove_split]

theorem step_refines (s : Storage) (log : RecordLog) (op : Op) (rep : Represents s log)
    (ok : Admissible log op) :
    Answered log op (step s op).2 ∧ Represents (step s op).1 (specLog log op) := by
  cases op with
  | append u d =>
    obtain ⟨s', done, rep'⟩ := append_represents rep d ok.1 ok.2
    simp only [step, done]
    exact ⟨rfl, rep'⟩
  | remove r =>
    by_cases first : r.tomId = firstTom
    · obtain elsewhere | ⟨a, e, b, rfl, points⟩ := ok
      · exact absurd first elsewhere
      · obtain ⟨s', r', done, raised, rep'⟩ := remove_represents rep points
        simp only [step, done, specLog, if_pos first]
        rw [points.place, markFrom_remove, remove_split]
        exact ⟨fun _ => ⟨r', rfl, raised⟩, rep'⟩
    · have missing := tom_elsewhere rep.toms first
      simp only [step, Storage.remove, missing, specLog, if_neg first]
      exact ⟨fun h => absurd h first, rep⟩
  | record u =>
    simp only [step, Storage.record, rep.index u]
    exact ⟨rfl, rep⟩
  | recordAt tomId offset =>
    have kept : (s.recordAt tomId offset).1 = s := by
      rcases ok with elsewhere | within
      · simp [Storage.recordAt, tom_elsewhere rep.toms elsewhere]
      · exact recordAt_unchanged rep.toms within
    constructor
    · rintro a e b rfl rfl rfl
      simp only [step, recordAt_filed rep.toms]
    · simpa only [step, kept, specLog] using rep
  | data r =>
    by_cases first : r.tomId = firstTom
    · obtain elsewhere | ⟨a, e, b, rfl, place, length⟩ := ok
      · exact absurd first elsewhere
      · simp only [step, data_filed rep.toms first place length, specLog]
        exact ⟨fun _ => ⟨a, e, b, rfl, place, rfl⟩, rep⟩
    · simp only [step, Storage.data, tom_elsewhere rep.toms first, specLog]
      exact ⟨fun h => absurd h first, rep⟩
  | scan =>
    simp only [step, scan_filed rep.toms, specLog]
    exact ⟨rfl, rep⟩
  | reopen =>
    obtain ⟨s', opened, rep'⟩ := reopen_represents rep
    simp only [step, opened, specLog]
    exact ⟨rfl, rep'⟩

theorem run_refines {s : Storage} {log : RecordLog} {ops : List Op} (rep : Represents s log)
    (ok : Meets specLog Admissible log ops) :
    Answers specLog Answered log ops (outputs step s ops) ∧
      Represents (run s ops) (specRun log ops) :=
  simulation step_refines rep ok

def appended (ops : List Op) : List (UUID × Payload) :=
  ops.filterMap fun | .append u d => some (u, d) | _ => none

/-- Everything a caller can see of a storage, told by the log. -/
structure Observes (s : Storage) (log : RecordLog) : Prop where
  file : (s.directory = [] ∧ log = []) ∨ s.directory = [(firstTom, logBytes log)]
  scan : s.scan.2 = .ok (liveFrom firstTom 0 log)
  found : ∀ u, (s.record u).tomId ≠ noTom ↔ u ∈ keys (live log)
  record : ∀ a e b, log = a ++ e :: b → e.removed = false →
    s.record e.key = recordFor firstTom (logBytes a).length ⟨e.key,e.data,false⟩
  data : ∀ a e b, log = a ++ e :: b →
    (s.data (recordFor firstTom (logBytes a).length e)).2 = .ok e.data.bytes
  removal : ∀ a e b r, log = a ++ e :: b → PointsAt r (logBytes a).length e →
    (s.remove r none).1.scan.2 =
      .ok ((liveFrom firstTom 0 log).filter fun x => x.1.offset ≠ r.offset) ∧
    ∀ u, u ≠ e.key → (s.remove r none).1.record u = s.record u

theorem liveFrom_places {tomId offset : Nat} {log : RecordLog} {x : Record × Bytes}
    (member : x ∈ liveFrom tomId offset log) :
    x.1.tomId = tomId ∧ offset ≤ x.1.offset ∧ x.1.offset < offset + (logBytes log).length := by
  induction log generalizing offset with
  | nil => simp [liveFrom] at member
  | cons e log ih =>
    have size := entrySize_large e
    have total : (logBytes (e :: log)).length = entrySize e + (logBytes log).length := by simp
    have later : x ∈ liveFrom tomId (offset + entrySize e) log → _ := fun inside => ih inside
    cases removed : e.removed with
    | true =>
      simp only [liveFrom, removed, if_true] at member
      have := later member
      omega
    | false =>
      simp only [liveFrom, removed, Bool.false_eq_true, if_false, List.mem_cons] at member
      rcases member with rfl | inside
      · simp only [recordFor, true_and]
        omega
      · have := later inside
        omega

theorem lookup_live_iff (log : RecordLog) (u : UUID) :
    ((lookup (liveFrom firstTom 0 log) u).getD {}).tomId ≠ noTom ↔ u ∈ keys (live log) := by
  rw [← liveFrom_uuids firstTom 0]
  constructor
  · intro found
    by_contra absent
    rw [lookup_none absent] at found
    exact found rfl
  · intro member
    obtain ⟨x, inside, named⟩ := List.mem_map.mp member
    cases seen : (liveFrom firstTom 0 log).find? fun x => x.1.header.uuid = u with
    | none =>
      have never := List.find?_eq_none.mp seen x inside
      simp [named] at never
    | some y =>
      have place := (liveFrom_places (List.mem_of_find?_eq_some seen)).1
      simp only [lookup, seen, Option.map_some, Option.getD_some, place]
      exact firstTom_real

theorem lookup_entry {a b : RecordLog} {e : Entry UUID Payload}
    (distinct : (keys (a ++ e :: b)).Nodup) (kept : e.removed = false) :
    lookup (liveFrom firstTom 0 (a ++ e :: b)) e.key =
      some (recordFor firstTom (logBytes a).length e) := by
  have before : e.key ∉ keys a := by
    simp only [keys, List.map_append, List.map_cons, List.nodup_append] at distinct
    intro inside
    exact distinct.2.2 e.key inside e.key (by simp) rfl
  rw [liveFrom_append, lookup_append, lookup_live_absent firstTom 0 before]
  simp [liveFrom, kept, lookup, recordFor, headerFor]

theorem liveFrom_removed (a b : RecordLog) (e : Entry UUID Payload) :
    liveFrom firstTom 0 (a ++ { e with removed := true } :: b) =
      (liveFrom firstTom 0 (a ++ e :: b)).filter fun x => x.1.offset ≠ (logBytes a).length := by
  have size := entrySize_large e
  have before : (liveFrom firstTom 0 a).filter (fun x => x.1.offset ≠ (logBytes a).length) =
      liveFrom firstTom 0 a := by
    apply List.filter_eq_self.mpr
    intro x inside
    have := liveFrom_places inside
    simp only [decide_eq_true_eq]
    omega
  have after : (liveFrom firstTom ((logBytes a).length + entrySize e) b).filter
      (fun x => x.1.offset ≠ (logBytes a).length) =
      liveFrom firstTom ((logBytes a).length + entrySize e) b := by
    apply List.filter_eq_self.mpr
    intro x inside
    have := liveFrom_places inside
    simp only [decide_eq_true_eq]
    omega
  simp only [liveFrom_append, List.filter_append, before, Nat.zero_add]
  congr 1
  have unchanged : entrySize { e with removed := true } = entrySize e := rfl
  cases removed : e.removed with
  | true => simp only [liveFrom, removed, if_true, after, unchanged]
  | false =>
    simp only [liveFrom, removed, Bool.false_eq_true, if_true, if_false, unchanged]
    rw [List.filter_cons_of_neg (by simp [recordFor]), after]

theorem observes_of_represents {s : Storage} {log : RecordLog} (rep : Represents s log) :
    Observes s log where
  file := by
    rcases rep.toms with ⟨empty, _, none⟩ | ⟨t, one, _, id, intact⟩
    · exact Or.inl ⟨by simp [Storage.directory, empty], none⟩
    · exact Or.inr (by simp [Storage.directory, one, id, intact.content])
  scan := by rw [scan_filed rep.toms]
  found := by
    intro u
    rw [Storage.record, rep.index]
    exact lookup_live_iff log u
  record := by
    rintro a e b rfl kept
    rw [Storage.record, rep.index, lookup_entry rep.distinct kept, ← kept]
    rfl
  data := by
    rintro a e b rfl
    rw [data_filed rep.toms rfl rfl rfl]
  removal := by
    rintro a e b r rfl points
    obtain ⟨s', r', done, _, rep'⟩ := remove_represents rep points
    rw [done, scan_filed rep'.toms, liveFrom_removed, points.place]
    refine ⟨rfl, ?_⟩
    intro u other
    simp only [Storage.record, rep'.index, rep.index, lookup_removed rep.distinct, if_neg other]

theorem markFrom_payload (offset here : Nat) (log : RecordLog) :
    (markFrom offset here log).map (fun e => (e.key, e.data)) =
      log.map fun e => (e.key, e.data) := by
  induction log generalizing here with
  | nil => rfl
  | cons e log ih =>
    simp only [markFrom, List.map_cons, ih]
    split <;> rfl

/- Whatever the run, its log holds the appended pairs in order: only the flags differ. -/
theorem specRun_payload (log : RecordLog) (ops : List Op) :
    (specRun log ops).map (fun e => (e.key, e.data)) =
      log.map (fun e => (e.key, e.data)) ++ appended ops := by
  induction ops generalizing log with
  | nil => simp [specRun, appended]
  | cons op ops ih =>
    have tail := ih (specLog log op)
    simp only [specRun, List.foldl_cons] at tail ⊢
    rw [tail]
    cases op with
    | append u d => simp [specLog, append, appended]
    | remove r =>
      simp only [specLog, appended]
      split <;> simp [markFrom_payload]
    | _ => simp [specLog, appended]

theorem storage_refines_log (ops : List Op) (ok : Meets specLog Admissible [] ops) :
    Answers specLog Answered [] ops (outputs step fresh ops) ∧
      (specRun [] ops).map (fun e => (e.key, e.data)) = appended ops ∧
      Observes (run fresh ops) (specRun [] ops) ∧
      ∃ s, (run fresh ops).reopen = .ok s ∧ Observes s (specRun [] ops) := by
  obtain ⟨answers, rep⟩ := run_refines fresh_represents ok
  obtain ⟨s, opened, rep'⟩ := reopen_represents rep
  exact ⟨answers, by simpa using specRun_payload [] ops, observes_of_represents rep, s, opened,
    observes_of_represents rep'⟩

def oneByte (b : UInt8) : Payload := ⟨[b],by simp,by simp⟩

def sampleRun : List Op :=
  [.append 1 (oneByte 7), .append 2 (oneByte 9), .recordAt firstTom 33,
    .remove (recordFor firstTom 0 ⟨1,oneByte 7,false⟩),
    .data (recordFor firstTom 33 ⟨2,oneByte 9,false⟩), .record 1, .scan, .reopen, .record 2]

theorem sampleRun_admissible : Meets specLog Admissible [] sampleRun := by
  refine ⟨⟨by decide, by decide⟩, ⟨by decide, by decide⟩, Or.inr (Or.inl (by decide)), ?_, ?_, trivial,
    trivial, trivial, trivial, trivial⟩
  · exact Or.inr ⟨[],_,_,rfl,rfl,rfl,Or.inl rfl,by decide⟩
  · exact Or.inr ⟨[⟨1,oneByte 7,true⟩],⟨2,oneByte 9,false⟩,[],rfl,rfl,rfl⟩

theorem storage_refines_log_sample :
    Meets specLog Admissible [] sampleRun ∧
      Answers specLog Answered [] sampleRun (outputs step fresh sampleRun) ∧
      (run fresh sampleRun).scan.2 =
        .ok [(recordFor firstTom 33 ⟨2,oneByte 9,false⟩, [9])] := by
  have refines := storage_refines_log sampleRun sampleRun_admissible
  exact ⟨sampleRun_admissible, refines.1, refines.2.2.1.scan⟩

end TinyMqStorageRuns
