import TinyMq.Storage.ManyToms
import TinyMq.Storage.TornTail

/-!
A failed append. The size of the tom moves before the write and the stream stays failed,
so the tom cannot be walked, nor appended to, for as long as the process lives; the next
process reads what reached the file.
-/
namespace TinyMqFailedAppends
open ByteStrings TombstoneLog Machines TinyMqTom TinyMqStorage TinyMqLogImage TinyMqRefinement
open TinyMqStorageRuns TinyMqTornTail TinyMqManyToms

/-- The append throws before it touches a stream: there is nothing to write, or the next tom
    cannot be opened. -/
def Untouched (s : Storage) (data : Bytes) : Prop :=
  data = [] ∨ s.currentTom.2 = .error .cannotEmplaceTom

section Stuck

/-- A tom whose stream failed after its size had moved. -/
def Broken (t : Tom) : Prop := t.tomF.good = false ∧ 0 < t.size

/-- The tom that is appended to is broken. -/
def Stuck (s : Storage) : Prop := ∃ t, s.tom s.currentTomId = some t ∧ Broken t

/-- What an operation may do to a tom: it keeps its id, does not shrink and a failed stream
    stays failed. -/
structure Worn (t t' : Tom) : Prop where
  id : t'.id = t.id
  size : t.size ≤ t'.size
  failed : t.tomF.good = false → t'.tomF.good = false

theorem Worn.refl (t : Tom) : Worn t t := ⟨rfl, Nat.le_refl _, fun failed => failed⟩

theorem Worn.trans {t t' t'' : Tom} (first : Worn t t') (second : Worn t' t'') : Worn t t'' :=
  ⟨second.id.trans first.id, Nat.le_trans first.size second.size,
    fun failed => second.failed (first.failed failed)⟩

theorem Worn.broken {t t' : Tom} (worn : Worn t t') (broken : Broken t) : Broken t' :=
  ⟨worn.failed broken.1, Nat.lt_of_lt_of_le broken.2 worn.size⟩

theorem write_failed {f : FileStream} (failed : f.good = false) (off : Nat) (d : Bytes)
    (fault : Option Nat) : f.write off d fault = f := by
  simp [FileStream.write, failed]

theorem read_failed {f : FileStream} (failed : f.good = false) (off len : Nat) :
    (f.read off len).1.good = false := by
  simp [FileStream.read, failed]

theorem stream_worn {t : Tom} {f : FileStream} {size : Nat} (bigger : t.size ≤ size)
    (failed : t.tomF.good = false → f.good = false) :
    Worn t { t with size := size, tomF := f } :=
  ⟨rfl, bigger, failed⟩

theorem append_worn (t : Tom) (u : UUID) (data : Bytes) (fault : Option Nat) :
    Worn t (t.append u data fault).1 := by
  simp only [Tom.append]
  split
  · exact Worn.refl t
  · have worn := stream_worn (t := t) (Nat.le_add_right t.size
        (headerBytes ⟨u,data.length,0⟩ ++ data).length)
      (fun failed => write_failed failed t.size (headerBytes ⟨u,data.length,0⟩ ++ data) fault ▸ failed)
    split <;> exact worn

theorem record_worn (t : Tom) (offset : Nat) : Worn t (t.record offset).1 := by
  simp only [Tom.record]
  split
  · have worn := stream_worn (t := t) (Nat.le_refl t.size)
      fun failed => read_failed failed offset headerSize
    split <;> exact worn
  · exact Worn.refl t

theorem data_worn (t : Tom) (r : Record) : Worn t (t.data r).1 := by
  simp only [Tom.data]
  split
  · exact Worn.refl t
  · have worn := stream_worn (t := t) (Nat.le_refl t.size)
      fun failed => read_failed failed (r.offset + headerSize) r.header.dataSize
    split <;> exact worn

theorem remove_worn (t : Tom) (r : Record) (fault : Option Nat) : Worn t (t.remove r fault).1 := by
  simp only [Tom.remove]
  split
  · exact Worn.refl t
  · have worn := stream_worn (t := t) (Nat.le_refl t.size)
      fun failed => write_failed failed (r.offset + deletedOffset) [1] fault ▸ failed
    split <;> exact worn

theorem recoverUuid_worn (t : Tom) (r : Record) : Worn t (recoverUuid t r).1 := by
  have worn := record_worn t r.offset
  unfold recoverUuid
  split
  · split
    · rename_i same
      rwa [same] at worn
    · rename_i same
      rwa [same] at worn
  · exact Worn.refl t

theorem record_error {t : Tom} {offset : Nat} {e : StorageError}
    (thrown : (t.record offset).2 = .error e) : e = .readHeaderFailed := by
  simp only [Tom.record] at thrown
  split at thrown
  · split at thrown
    · cases thrown
    · exact (Except.error.inj thrown).symm
  · cases thrown

theorem walkTom_worn {σ : Type} {visit : Tom → Record → σ → Tom × σ}
    (worn : ∀ t r acc, Worn t (visit t r acc).1) (fuel : Nat) (t : Tom) (offset : Nat) (acc : σ) :
    Worn t (walkTom visit fuel t offset acc).1 ∧
      ∀ e, (walkTom visit fuel t offset acc).2 = .error e → e = .readHeaderFailed := by
  induction fuel generalizing t offset acc with
  | zero => exact ⟨Worn.refl t, fun e thrown => by cases thrown⟩
  | succ fuel ih =>
    have read := record_worn t offset
    rw [walkTom]
    rcases here : t.record offset with ⟨t', e | r⟩
    · rw [here] at read
      refine ⟨read, ?_⟩
      intro e' thrown
      cases thrown
      exact record_error (congrArg Prod.snd here)
    · rw [here] at read
      by_cases ends : r.tomId = noTom ∨ r.header.dataSize = 0
      · simp only [if_pos ends]
        exact ⟨read, fun e thrown => by cases thrown⟩
      · simp only [if_neg ends]
        split
        · have later := ih (visit t' r acc).1 (offset + headerSize + r.header.dataSize)
            (visit t' r acc).2
          exact ⟨(read.trans (worn t' r acc)).trans later.1, later.2⟩
        · have later := ih t' (offset + headerSize + r.header.dataSize) acc
          exact ⟨read.trans later.1, later.2⟩

theorem walkToms_worn {σ : Type} {visit : Tom → Record → σ → Tom × σ}
    (worn : ∀ t r acc, Worn t (visit t r acc).1) (toms : List Tom) (acc : σ) :
    List.Forall₂ Worn toms (walkToms visit toms acc).1 ∧
      ∀ e, (walkToms visit toms acc).2 = .error e → e = .readHeaderFailed := by
  induction toms generalizing acc with
  | nil => exact ⟨List.Forall₂.nil, fun e thrown => by cases thrown⟩
  | cons t toms ih =>
    have first := walkTom_worn worn (t.size + 1) t 0 acc
    have kept : List.Forall₂ Worn toms toms := List.forall₂_same.mpr fun u _ => Worn.refl u
    rw [walkToms]
    rcases here : walkTom visit (t.size + 1) t 0 acc with ⟨t', e | acc'⟩
    · rw [here] at first
      exact ⟨List.Forall₂.cons first.1 kept, first.2⟩
    · rw [here] at first
      exact ⟨List.Forall₂.cons first.1 (ih acc').1, (ih acc').2⟩

theorem scanVisit_worn (t : Tom) (r : Record) (acc : List (Record × Bytes)) :
    Worn t (scanVisit t r acc).1 := by
  have read := data_worn t r
  unfold scanVisit
  split
  · rename_i same
    rwa [same] at read
  · rename_i same
    rwa [same] at read

theorem walkToms_broken {σ : Type} {visit : Tom → Record → σ → Tom × σ}
    (worn : ∀ t r acc, Worn t (visit t r acc).1) {toms : List Tom} {t : Tom} (member : t ∈ toms)
    (broken : Broken t) (acc : σ) : (walkToms visit toms acc).2 = .error .readHeaderFailed := by
  induction toms generalizing acc with
  | nil => cases member
  | cons u toms ih =>
    have first := walkTom_worn worn (u.size + 1) u 0 acc
    rw [walkToms]
    rcases here : walkTom visit (u.size + 1) u 0 acc with ⟨u', e | acc'⟩
    · rw [here] at first
      rw [first.2 e rfl]
    · rcases List.mem_cons.mp member with rfl | later
      · have unreadable : (t.record 0).2 = .error .readHeaderFailed := by
          simp [Tom.record, broken.2, FileStream.read, broken.1]
        rw [walkTom] at here
        rcases read : t.record 0 with ⟨t', result⟩
        rw [read] at unreadable here
        simp only at unreadable
        rw [unreadable] at here
        cases here
      · exact ih later acc'

theorem tom_setTom (s : Storage) (t : Tom) (id : Nat) :
    (s.setTom t).tom id = if id = t.id then (s.tom id).map fun _ => t else s.tom id := by
  obtain ⟨current, toms, index⟩ := s
  simp only [Storage.tom, Storage.setTom]
  induction toms with
  | nil => simp
  | cons u toms ih =>
    by_cases same : u.id = t.id
    · by_cases here : id = t.id
      · simp [same, here]
      · have other : t.id ≠ id := fun h => here h.symm
        have other' : u.id ≠ id := by rw [same]; exact other
        simpa [same, here, other, other'] using ih
    · by_cases here : u.id = id
      · have other : id ≠ t.id := by rw [← here]; exact same
        simp [here, other]
      · simpa [same, here] using ih

theorem tom_member {s : Storage} {id : Nat} {t : Tom} (found : s.tom id = some t) :
    t ∈ s.toms ∧ t.id = id :=
  ⟨List.mem_of_find?_eq_some found, by simpa using List.find?_some found⟩

theorem setTom_stuck {s : Storage} (stuck : Stuck s) {id : Nat} {t t' : Tom}
    (found : s.tom id = some t) (worn : Worn t t') : Stuck (s.setTom t') := by
  obtain ⟨u, current, broken⟩ := stuck
  have here := tom_setTom s t' s.currentTomId
  have name : t'.id = id := worn.id.trans (tom_member found).2
  split at here
  · rename_i same
    have one : u = t := by
      rw [same, name, found] at current
      exact (Option.some.inj current).symm
    rw [current] at here
    exact ⟨t', here, worn.broken (one ▸ broken)⟩
  · exact ⟨u, here.trans current, broken⟩

theorem scan_stuck {s : Storage} (stuck : Stuck s) :
    Stuck s.scan.1 ∧ s.scan.2 = .error .readHeaderFailed := by
  obtain ⟨t, found, broken⟩ := stuck
  refine ⟨?_, walkToms_broken scanVisit_worn (tom_member found).1 broken []⟩
  have worn := (walkToms_worn scanVisit_worn s.toms []).1
  have finds : ∀ {toms toms' : List Tom}, List.Forall₂ Worn toms toms' →
      toms.find? (·.id = s.currentTomId) = some t →
        ∃ t', toms'.find? (·.id = s.currentTomId) = some t' ∧ Broken t' := by
    intro toms toms' pairs here
    induction pairs with
    | nil => cases here
    | @cons u u' toms toms' first pairs ih =>
      by_cases same : u.id = s.currentTomId
      · have name : u'.id = s.currentTomId := first.id.trans same
        rw [List.find?_cons_of_pos (by simpa using same)] at here
        obtain rfl := Option.some.inj here
        exact ⟨u', List.find?_cons_of_pos (by simpa using name), first.broken broken⟩
      · have name : u'.id ≠ s.currentTomId := fun h => same (first.id.symm.trans h)
        rw [List.find?_cons_of_neg (by simpa using same)] at here
        rw [List.find?_cons_of_neg (by simpa using name)]
        exact ih here
  exact finds worn found

theorem append_stuck {s : Storage} (stuck : Stuck s) (u : UUID) (d : Payload) (fault : Option Nat) :
    Stuck (s.append u d.bytes fault).1 ∧ (s.append u d.bytes fault).2 = .error .writeFailed := by
  obtain ⟨t, found, broken⟩ := stuck
  have filled : d.bytes.isEmpty = false := by simpa using d.nonempty
  have current : s.currentTom = (s, .ok t) := by rw [Storage.currentTom, found]
  have worn := append_worn t u d.bytes fault
  have thrown : (t.append u d.bytes fault).2 = .error .writeFailed := by
    simp [Tom.append, filled, write_failed broken.1, broken.1]
  rcases here : t.append u d.bytes fault with ⟨t', result⟩
  rw [here] at worn thrown
  simp only at thrown
  subst thrown
  simp only [Storage.append, filled, current, here]
  exact ⟨setTom_stuck ⟨t, found, broken⟩ found worn, rfl⟩

theorem step_stuck {s : Storage} (stuck : Stuck s) {op : Op} (open_ : op ≠ .reopen) :
    Stuck (step s op).1 := by
  cases op with
  | append u d => exact (append_stuck stuck u d none).1
  | record u => exact stuck
  | scan => exact (scan_stuck stuck).1
  | reopen => exact absurd rfl open_
  | recordAt id offset =>
    simp only [step, Storage.recordAt]
    rcases found : s.tom id with _ | t
    · exact stuck
    · exact setTom_stuck stuck found (record_worn t offset)
  | data r =>
    simp only [step, Storage.data]
    rcases found : s.tom r.tomId with _ | t
    · exact stuck
    · exact setTom_stuck stuck found (data_worn t r)
  | remove r =>
    simp only [step, Storage.remove]
    rcases found : s.tom r.tomId with _ | t
    · exact stuck
    · have worn := (recoverUuid_worn t r).trans (remove_worn (recoverUuid t r).1 r none)
      have kept := setTom_stuck stuck found worn
      simp only
      split <;> exact kept

theorem run_stuck {s : Storage} (stuck : Stuck s) {ops : List Op} (open_ : .reopen ∉ ops) :
    Stuck (run s ops) := by
  induction ops generalizing s with
  | nil => exact stuck
  | cons op ops ih =>
    refine ih (step_stuck stuck ?_) fun later => open_ (List.mem_cons_of_mem op later)
    intro same
    exact open_ (by simp [same])

end Stuck

section Failures

def Shows (s : Storage) (seen : List (Record × Bytes)) : Prop :=
  ∃ now, s.scan.2 = .ok now ∧ ∀ x, x ∈ now ↔ x ∈ seen

/-- A failed append that took `s` to `s'` changed nothing: the scan and the records are the same,
    and the next append that succeeds is seen with all that was, before and after a reopening. -/
structure Unharmed (s s' : Storage) : Prop where
  scan : s'.scan.2 = s.scan.2
  record : ∀ v, s'.record v = s.record v
  next : ∀ seen, s.scan.2 = .ok seen → ∀ u (d : Payload) after r,
    s'.append u d.bytes none = (after, .ok r) →
      Shows after (seen ++ [(r, d.bytes)]) ∧
        ∃ opened, after.reopen = .ok opened ∧ Shows opened (seen ++ [(r, d.bytes)])
  reopened : ∀ seen, s.scan.2 = .ok seen → ∃ opened, s'.reopen = .ok opened ∧ Shows opened seen ∧
    ∀ u (d : Payload) after r, opened.append u d.bytes none = (after, .ok r) →
      Shows after (seen ++ [(r, d.bytes)])

variable {s s' : Storage} {u : UUID} {data : Bytes} {fault : Option Nat} {e : StorageError}

theorem append_failed (failed : s.append u data fault = (s', .error e)) :
    (Untouched s data ∧ s'.toms = s.toms ∧ s'.index = s.index) ∨
      (¬ Untouched s data ∧ Stuck s' ∧ s'.index = s.index) := by
  by_cases empty : data = []
  · left
    subst empty
    cases failed
    exact ⟨Or.inl rfl, rfl, rfl⟩
  · have filled : data.isEmpty = false := by simpa using empty
    simp only [Storage.append, filled, Bool.false_eq_true, if_false] at failed
    rcases current : s.currentTom with ⟨s₁, e₁ | t⟩
    · left
      rw [current] at failed
      cases failed
      simp only [Storage.currentTom] at current
      split at current
      · cases current
      · split at current
        · rename_i exists_
          cases current
          exact ⟨Or.inr (by simp [Storage.currentTom, *]), rfl, rfl⟩
        · cases current
    · right
      have untouched : ¬ Untouched s data := by
        rintro (none_ | thrown)
        · exact empty none_
        · rw [current] at thrown
          cases thrown
      have found : s₁.tom s₁.currentTomId = some t ∧ s₁.index = s.index := by
        simp only [Storage.currentTom] at current
        split at current
        · rename_i here
          cases current
          exact ⟨here, rfl⟩
        · split at current
          · cases current
          · rename_i new
            cases current
            have absent : s.toms.find? (·.id = s.currentTomId + 1) = none := by
              simpa [Storage.contains] using new
            refine ⟨?_, rfl⟩
            simp [Storage.tom, List.find?_append, absent, Tom.create]
      rw [current] at failed
      simp only at failed
      have worn := append_worn t u data fault
      have name := (tom_member found.1).2
      have fails : ∀ t', t.append u data fault = (t', .error e) → Broken t' := by
        intro t' thrown
        simp only [Tom.append, filled, Bool.false_eq_true, if_false] at thrown
        split at thrown
        · cases thrown
        · rename_i bad
          cases thrown
          refine ⟨by simpa using bad, ?_⟩
          simp only [List.length_append, headerBytes_length, headerSize]
          omega
      rcases wrote : t.append u data fault with ⟨t', e' | r⟩
      · rw [wrote] at failed worn
        cases failed
        have here := tom_setTom s₁ t' s₁.currentTomId
        rw [if_pos (by rw [worn.id, name]), found.1] at here
        exact ⟨untouched, ⟨t', here, fails t' wrote⟩, found.2⟩
      · rw [wrote] at failed
        cases failed

theorem append_failed_scan (failed : s.append u data fault = (s', .error e)) :
    (∀ v, s'.record v = s.record v) ∧
      (s'.scan.2 = s.scan.2 ↔ Untouched s data ∨ s.scan.2 = .error .readHeaderFailed) := by
  rcases append_failed failed with ⟨untouched, toms, index⟩ | ⟨touched, stuck, index⟩
  · refine ⟨fun v => by rw [Storage.record, index, Storage.record], ?_⟩
    refine iff_of_true ?_ (Or.inl untouched)
    simp only [Storage.scan, toms]
  · refine ⟨fun v => by rw [Storage.record, index, Storage.record], ?_⟩
    rw [(scan_stuck stuck).2]
    constructor
    · exact fun same => Or.inr same.symm
    · rintro (untouched | thrown)
      · exact absurd untouched touched
      · exact thrown.symm

theorem append_failed_run (failed : s.append u data fault = (s', .error e))
    (touched : ¬ Untouched s data) {ops : List Op} (open_ : .reopen ∉ ops) :
    (run s' ops).scan.2 = .error .readHeaderFailed ∧
      ∀ v (d : Payload), ((run s' ops).append v d.bytes none).2 = .error .writeFailed := by
  rcases append_failed failed with ⟨untouched, -, -⟩ | ⟨-, stuck, -⟩
  · exact absurd untouched touched
  · have later := run_stuck stuck open_
    exact ⟨(scan_stuck later).2, fun v d => (append_stuck later v d none).2⟩

variable {logs : Logs} {seen : List (Record × Bytes)}

theorem holds_shows (holds : Holds s logs) :
    Shows s seen ↔ ∀ x, (∃ c ∈ cells s logs, c.alive = true ∧ x = (c.record, c.entry.data.bytes)) ↔
      x ∈ seen := by
  obtain ⟨now, scanned, shown⟩ := scan_holds holds
  constructor
  · rintro ⟨now', scanned', same⟩ x
    rw [scanned] at scanned'
    cases scanned'
    exact (shown x).symm.trans (same x)
  · intro same
    exact ⟨now, by rw [scanned], fun x => (shown x).trans (same x)⟩

theorem append_shows (holds : Holds s logs) (shows : Shows s seen) {d : Payload} {after : Storage}
    {r : Record} (done : s.append u d.bytes none = (after, .ok r)) :
    ∃ logs', Holds after logs' ∧ Shows after (seen ++ [(r, d.bytes)]) := by
  obtain ⟨s₁, c, logs', appended, entry, holds', places⟩ := append_holds holds u d
  rw [appended] at done
  cases done
  refine ⟨logs', holds', (holds_shows holds').mpr fun x => ?_⟩
  have alive : c.alive = true := by simp [Cell.alive, entry]
  have bytes : c.entry.data.bytes = d.bytes := by rw [entry]
  rw [places, List.mem_append, ← (holds_shows holds).mp shows x, List.mem_singleton]
  constructor
  · rintro ⟨c', member, alive', rfl⟩
    rcases List.mem_append.mp member with old | last
    · exact Or.inl ⟨c', old, alive', rfl⟩
    · rw [List.mem_singleton.mp last, bytes]
      exact Or.inr rfl
  · rintro (⟨c', old, alive', same⟩ | rfl)
    · exact ⟨c', List.mem_append_left _ old, alive', same⟩
    · exact ⟨c, by simp, alive, by rw [bytes]⟩

theorem reopen_shows (holds : Holds s logs) (shows : Shows s seen) :
    ∃ opened logs', s.reopen = .ok opened ∧ Holds opened logs' ∧ Shows opened seen := by
  obtain ⟨opened, logs', done, holds', places⟩ := reopen_holds holds
  refine ⟨opened, logs', done, holds', (holds_shows holds').mpr ?_⟩
  rw [places]
  exact (holds_shows holds).mp shows

theorem unharmed_self (holds : Holds s logs) : Unharmed s s where
  scan := rfl
  record := fun _ => rfl
  next := by
    intro seen scanned u d after r done
    obtain ⟨logs', holds', shows⟩ := append_shows holds ⟨seen, scanned, fun _ => Iff.rfl⟩ done
    obtain ⟨opened, _, reopened, -, again⟩ := reopen_shows holds' shows
    exact ⟨shows, opened, reopened, again⟩
  reopened := by
    intro seen scanned
    obtain ⟨opened, logs', reopened, holds', shows⟩ :=
      reopen_shows holds ⟨seen, scanned, fun _ => Iff.rfl⟩
    refine ⟨opened, reopened, shows, ?_⟩
    intro u d after r done
    obtain ⟨-, -, more⟩ := append_shows holds' shows done
    exact more

theorem currentTom_holds (holds : Holds s logs) : s.currentTom.2 ≠ .error .cannotEmplaceTom := by
  rcases holds.current with ⟨none_, -⟩ | ⟨current, -⟩
  · simp [Storage.currentTom, Storage.tom, Storage.contains, none_]
  · obtain ⟨t, member, id⟩ := List.mem_map.mp current
    rw [Storage.currentTom, ← show t.id = s.currentTomId from id, tom_found holds member]
    simp

theorem unharmed_iff (holds : Holds s logs) (failed : s.append u data fault = (s', .error e)) :
    Unharmed s s' ↔ data = [] := by
  obtain ⟨now, scanned, -⟩ := scan_holds holds
  constructor
  · intro unharmed
    rcases (append_failed_scan failed).2.mp unharmed.scan with (empty | thrown) | thrown
    · exact empty
    · exact absurd thrown (currentTom_holds holds)
    · rw [scanned] at thrown
      cases thrown
  · rintro rfl
    cases failed
    exact unharmed_self holds

theorem failed_crash_iff (ops : List Op) (ok : Meets specLog Admissible [] ops) (u : UUID)
    (d : Payload) (k : Nat) (bound : k ≤ headerSize + d.bytes.length) :
    CrashConsistent (specRun [] ops) (crashDisk (run fresh ops) u d k) ↔ k = 0 := by
  have rep := (run_refines fresh_represents ok).2
  rw [crashDisk_represents rep]
  constructor
  · intro consistent
    by_contra written
    by_cases all : k = headerSize + d.bytes.length
    · have whole : (entryBytes ⟨u,d,false⟩).take k = entryBytes ⟨u,d,false⟩ :=
        List.take_of_length_le (by simp [entrySize, all])
      have image : logBytes (specRun [] ops) ++ entryBytes ⟨u,d,false⟩ =
          logBytes (append (specRun [] ops) u d) := by simp [append]
      obtain ⟨s, opened, scanned, -⟩ := consistent
      obtain ⟨s', opened', filed, -⟩ := construct_filed (append (specRun [] ops) u d)
      rw [whole, image, opened'] at opened
      cases opened
      rw [scan_filed filed, liveFrom_snoc] at scanned
      have lengths := congrArg List.length (Except.ok.inj scanned)
      simp at lengths
    · exact torn_tail_inconsistent _ u d (by omega) (by omega) consistent
  · rintro rfl
    rw [List.take_zero, List.append_nil]
    exact clean_crash_consistent rep.distinct rep.named

/-- What a failed append leaves. (1) The index is never changed; the scan is the same exactly when
    no stream was touched or the storage could not be scanned before, in every state there is.
    (2) Once a write has failed, no run of operations without a reopening scans or appends again.
    (3) In a storage of logs the failed append is harmless exactly when its data is empty: that
    one throws before it writes. (4) The next process is as if the append had not been made
    exactly when none of its bytes reached the file. -/
theorem failed_append (s s' : Storage) (u : UUID) (data : Bytes) (fault : Option Nat)
    (e : StorageError) (failed : s.append u data fault = (s', .error e)) :
    ((∀ v, s'.record v = s.record v) ∧
      (s'.scan.2 = s.scan.2 ↔ Untouched s data ∨ s.scan.2 = .error .readHeaderFailed)) ∧
    (¬ Untouched s data → ∀ ops : List Op, .reopen ∉ ops →
      (run s' ops).scan.2 = .error .readHeaderFailed ∧
        ∀ v (d : Payload), ((run s' ops).append v d.bytes none).2 = .error .writeFailed) ∧
    (∀ logs : Logs, Holds s logs → (Unharmed s s' ↔ data = [])) ∧
    ∀ ops : List Op, Meets specLog Admissible [] ops → ∀ (v : UUID) (d : Payload) (k : Nat),
      k ≤ headerSize + d.bytes.length →
        (CrashConsistent (specRun [] ops) (crashDisk (run fresh ops) v d k) ↔ k = 0) := by
  refine ⟨append_failed_scan failed, ?_, ?_, failed_crash_iff⟩
  · intro touched ops open_
    exact append_failed_run failed touched open_
  · intro logs holds
    exact unharmed_iff holds failed

end Failures

def oneRecord : Storage := (fresh.append 1 [7] none).1

theorem oneRecord_holds : Holds oneRecord fun _ => [⟨1, oneByte 7, false⟩] where
  distinct := by decide
  intact := by
    intro t member
    rw [List.mem_singleton.mp member]
    exact ⟨rfl, rfl, rfl, by decide⟩
  current := Or.inr ⟨by decide, by decide⟩

theorem failed_append_oneRecord :
    Unharmed oneRecord (oneRecord.append 2 [9] (some 0)).1 ↔ ([9] : Bytes) = [] :=
  (failed_append oneRecord _ 2 [9] (some 0) .writeFailed rfl).2.2.1 _ oneRecord_holds

/- None of its bytes is written, and the record that was there before is no longer seen. -/
theorem failed_append_hides :
    oneRecord.scan.2 = .ok [(recordFor firstTom 0 ⟨1, oneByte 7, false⟩, [7])] ∧
      (oneRecord.append 2 [9] (some 0)).2 = .error .writeFailed ∧
      (oneRecord.append 2 [9] (some 0)).1.scan.2 = .error .readHeaderFailed ∧
      ¬ Unharmed oneRecord (oneRecord.append 2 [9] (some 0)).1 := by
  have before : oneRecord.scan.2 = .ok [(recordFor firstTom 0 ⟨1, oneByte 7, false⟩, [7])] := by
    rfl
  have behind : (oneRecord.append 2 [9] (some 0)).1.scan.2 = .error .readHeaderFailed := by
    rfl
  refine ⟨before, rfl, behind, ?_⟩
  intro unharmed
  have same := unharmed.scan
  rw [before, behind] at same
  cases same

end TinyMqFailedAppends
