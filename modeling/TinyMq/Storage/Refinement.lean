import TinyMq.Storage.LogImage

/-!
`Storage` against the log it is meant to be. Two relations: that the tom file
holds the log, and that the index also has every live record under its uuid; and
one lemma for each operation that says what it answers and which log it leaves.
-/
namespace TinyMqRefinement
open ByteStrings TombstoneLog TinyMqTom TinyMqStorage TinyMqLogImage

/-- A fresh storage numbers its first tom 1 and never opens a second one. -/
def firstTom : Nat := 1

/-- The tom file holds the log; the index may hold anything. -/
def Filed (s : Storage) (log : RecordLog) : Prop :=
  (s.toms = [] ∧ s.currentTomId = 0 ∧ log = []) ∨
    ∃ t, s.toms = [t] ∧ s.currentTomId = firstTom ∧ t.id = firstTom ∧ Intact t (logBytes log)

structure Represents (s : Storage) (log : RecordLog) : Prop where
  toms : (s.toms = [] ∧ s.currentTomId = 0 ∧ log = []) ∨
    ∃ t, s.toms = [t] ∧ s.currentTomId = firstTom ∧ t.id = firstTom ∧ Intact t (logBytes log)
  index : ∀ u, s.index u = lookup (liveFrom firstTom 0 log) u
  distinct : (keys log).Nodup
  named : 0 ∉ keys log

def fresh : Storage := ⟨0,[],fun _ => none⟩

theorem fresh_represents : Represents fresh [] where
  toms := Or.inl ⟨rfl,rfl,rfl⟩
  index := fun _ => rfl
  distinct := List.nodup_nil
  named := List.not_mem_nil

theorem firstTom_real : firstTom ≠ noTom := by decide

theorem lookup_live_absent {log : RecordLog} {u : UUID} (tomId offset : Nat)
    (absent : u ∉ keys log) : lookup (liveFrom tomId offset log) u = none := by
  apply lookup_none
  rw [liveFrom_uuids]
  exact fun member => absent (keys_live_subset log member)

theorem currentTom_filed {s : Storage} {log : RecordLog} (filed : Filed s log) :
    ∃ s' t, s.currentTom = (s', .ok t) ∧ s'.toms = [t] ∧ s'.currentTomId = firstTom ∧
      s'.index = s.index ∧ t.id = firstTom ∧ Intact t (logBytes log) := by
  rcases filed with ⟨none, current, rfl⟩ | ⟨t, one, current, id, intact⟩
  · refine ⟨{ s with currentTomId := firstTom, toms := [Tom.create firstTom []] },
      Tom.create firstTom [], ?_, rfl, rfl, rfl, rfl, ⟨rfl,rfl,rfl,firstTom_real⟩⟩
    simp [Storage.currentTom, Storage.tom, Storage.contains, none, current, firstTom]
  · exact ⟨s, t, by simp [Storage.currentTom, Storage.tom, one, current, id], one, current, rfl,
      id, intact⟩

theorem append_filed {s : Storage} {log : RecordLog} (filed : Filed s log) (u : UUID) (d : Payload) :
    ∃ s', s.append u d.bytes none =
        (s', .ok (recordFor firstTom (logBytes log).length ⟨u,d,false⟩)) ∧
      Filed s' (append log u d) ∧
      s'.index = Function.update s.index u
        (some (recordFor firstTom (logBytes log).length ⟨u,d,false⟩)) := by
  have filled : d.bytes.isEmpty = false := by simpa using d.nonempty
  obtain ⟨s₁, t, found, one, current, sameIndex, id, intact⟩ := currentTom_filed filed
  obtain ⟨t', written, id', intact'⟩ := append_entry intact u d
  rw [id] at written id'
  have image : logBytes (append log u d) = logBytes log ++ entryBytes ⟨u,d,false⟩ := by
    simp [append]
  refine ⟨{ s₁ with
    toms := [t'],
    index := Function.update s₁.index u (some (recordFor firstTom (logBytes log).length ⟨u,d,false⟩)) },
    ?_, ?_, ?_⟩
  · simp [Storage.append, filled, found, written, Storage.setTom, one, id, id', recordFor,
      headerFor]
  · rw [← image] at intact'
    exact Or.inr ⟨t', rfl, current, id', intact'⟩
  · rw [sameIndex]

theorem liveFrom_snoc (log : RecordLog) (u : UUID) (d : Payload) :
    liveFrom firstTom 0 (append log u d) = liveFrom firstTom 0 log ++
      [(recordFor firstTom (logBytes log).length ⟨u,d,false⟩, d.bytes)] := by
  simp [append, liveFrom_append, liveFrom]

theorem append_represents {s : Storage} {log : RecordLog} (rep : Represents s log)
    {u : UUID} (d : Payload) (new : u ∉ keys log) (real : u ≠ 0) :
    ∃ s', s.append u d.bytes none =
        (s', .ok (recordFor firstTom (logBytes log).length ⟨u,d,false⟩)) ∧
      Represents s' (append log u d) := by
  obtain ⟨s', done, filed, index⟩ := append_filed rep.toms u d
  refine ⟨s', done, filed, ?_, ?_, ?_⟩
  · intro v
    rw [index, liveFrom_snoc, lookup_append]
    by_cases same : v = u
    · subst same
      rw [lookup_live_absent firstTom 0 new]
      simp [lookup, recordFor, headerFor]
    · have other : u ≠ v := fun h => same h.symm
      rw [Function.update_of_ne same, rep.index]
      simp [lookup, recordFor, headerFor, other]
  · have fresh : ∀ a ∈ keys log, a ≠ u := by rintro a member rfl; exact new member
    simpa [List.nodup_append] using ⟨rep.distinct, fresh⟩
  · simpa using ⟨rep.named, fun h => real h.symm⟩

/- A record argument that points at the entry `e`: the record the storage gave
   out for it, or the fast acknowledge path's copy that carries the place only.
   A raised flag in the copy was read from the storage, so the entry has it. -/
structure PointsAt (r : Record) (offset : Nat) (e : Entry UUID Payload) : Prop where
  tom : r.tomId = firstTom
  place : r.offset = offset
  name : r.header.uuid = e.key ∨ r.header.uuid = 0
  flag : r.header.deleted ≠ 0 → e.removed = true

theorem tom_of_entry {s : Storage} {a b : RecordLog} {e : Entry UUID Payload}
    (filed : Filed s (a ++ e :: b)) :
    ∃ t, s.toms = [t] ∧ s.currentTomId = firstTom ∧ t.id = firstTom ∧
      s.tom firstTom = some t ∧ Intact t (logBytes a ++ entryBytes e ++ logBytes b) := by
  rcases filed with ⟨_, _, empty⟩ | ⟨t, one, current, id, intact⟩
  · simp at empty
  · refine ⟨t, one, current, id, by simp [Storage.tom, one, id], ?_⟩
    simpa using intact

theorem lookup_removed {a b : RecordLog} {e : Entry UUID Payload}
    (distinct : (keys (a ++ e :: b)).Nodup) (u : UUID) :
    lookup (liveFrom firstTom 0 (a ++ { e with removed := true } :: b)) u =
      if u = e.key then none else lookup (liveFrom firstTom 0 (a ++ e :: b)) u := by
  split
  · rename_i same
    subst same
    apply lookup_none
    rw [liveFrom_uuids]
    simp only [keys, List.map_append, List.map_cons, List.nodup_append, List.nodup_cons,
      List.mem_cons, List.mem_map] at distinct
    simp only [keys, live, List.mem_map, List.mem_filter, List.mem_append, List.mem_cons]
    rintro ⟨x, ⟨before | same | after, alive⟩, key⟩
    · exact distinct.2.2 x.key ⟨x, before, rfl⟩ e.key (Or.inl rfl) key
    · subst same; simp at alive
    · exact distinct.2.1.1 ⟨x, after, key⟩
  · rename_i other
    have same : e.key ≠ u := fun h => other h.symm
    simp only [liveFrom_append, lookup_append]
    congr 1
    cases removed : e.removed <;>
      simp [liveFrom, removed, lookup, recordFor, headerFor, same, entrySize]

/- The index entry goes with the record, except under the nil uuid. -/
theorem remove_filed {s : Storage} {a b : RecordLog} {e : Entry UUID Payload}
    (filed : Filed s (a ++ e :: b)) {r : Record}
    (points : PointsAt r (logBytes a).length e) :
    ∃ s' r', s.remove r none = (s', .ok (r', true)) ∧ r'.header.deleted ≠ 0 ∧
      Filed s' (a ++ { e with removed := true } :: b) ∧
      s'.index = if e.key = 0 then s.index else Function.update s.index e.key none := by
  obtain ⟨t, one, current, id, found, intact⟩ := tom_of_entry filed
  have uuid : recoverUuid t r = (t, e.key) := by
    by_cases zero : r.header.uuid = 0
    · rw [recoverUuid, if_pos zero, points.place, record_at_entry intact]
      rfl
    · rcases points.name with same | nil
      · rw [recoverUuid, if_neg zero, same]
      · exact absurd nil zero
  have marked : ∃ t' r', t.remove r none = (t', r', true) ∧ r'.header.deleted ≠ 0 ∧
      t'.id = firstTom ∧
      Intact t' (logBytes a ++ entryBytes { e with removed := true } ++ logBytes b) := by
    by_cases unmarked : r.header.deleted = 0
    · obtain ⟨t', written, id', intact'⟩ := remove_entry intact points.place unmarked
      exact ⟨t', _, written, by simp, id'.trans id, intact'⟩
    · have already : ({ e with removed := true } : Entry UUID Payload) = e := by
        rw [← points.flag unmarked]
      refine ⟨t, r, by simp [Tom.remove, unmarked], unmarked, id, ?_⟩
      rw [already]
      exact intact
  obtain ⟨t', r', written, raised, id', intact'⟩ := marked
  have filed' : Filed { s with
      toms := [t'],
      index := if e.key = 0 then s.index else Function.update s.index e.key none }
      (a ++ { e with removed := true } :: b) :=
    Or.inr ⟨t', rfl, current, id', by simpa using intact'⟩
  refine ⟨_, r', ?_, raised, filed', rfl⟩
  simp only [Storage.remove, points.tom, found, uuid, written]
  by_cases nil : e.key = 0
  · simp [nil, Storage.setTom, one, id, id']
  · rw [if_pos ⟨trivial, nil⟩, if_neg nil]
    simp [Storage.setTom, one, id, id']

theorem remove_represents {s : Storage} {a b : RecordLog} {e : Entry UUID Payload}
    (rep : Represents s (a ++ e :: b)) {r : Record}
    (points : PointsAt r (logBytes a).length e) :
    ∃ s' r', s.remove r none = (s', .ok (r', true)) ∧ r'.header.deleted ≠ 0 ∧
      Represents s' (a ++ { e with removed := true } :: b) := by
  have real : e.key ≠ 0 := by
    rintro zero
    exact rep.named (by simp [keys, ← zero])
  obtain ⟨s', r', done, raised, filed, index⟩ := remove_filed rep.toms points
  refine ⟨s', r', done, raised, filed, ?_, ?_, ?_⟩
  · intro u
    rw [index, if_neg real, lookup_removed rep.distinct]
    split
    · rename_i same; simp [same]
    · rename_i other; simp only [Function.update_of_ne other, rep.index]
  · rw [keys_split_removed]; exact rep.distinct
  · rw [keys_split_removed]; exact rep.named

theorem tom_elsewhere {s : Storage} {log : RecordLog} (filed : Filed s log) {id : Nat}
    (elsewhere : id ≠ firstTom) : s.tom id = none := by
  rcases filed with ⟨empty, _, _⟩ | ⟨t, one, _, first, _⟩
  · simp [Storage.tom, empty]
  · have other : firstTom ≠ id := fun h => elsewhere h.symm
    simp [Storage.tom, one, first, other]

theorem setTom_same {s : Storage} {t : Tom} (one : s.toms = [t]) : s.setTom t = s := by
  obtain ⟨current, toms, index⟩ := s
  simp only at one
  subst one
  simp [Storage.setTom]

theorem scan_filed {s : Storage} {log : RecordLog} (filed : Filed s log) :
    s.scan = (s, .ok (liveFrom firstTom 0 log)) := by
  rcases filed with ⟨empty, _, rfl⟩ | ⟨t, one, _, id, intact⟩
  · obtain ⟨current, toms, index⟩ := s
    simp only at empty
    subst empty
    rfl
  · have scanned := scan_log intact []
    rw [id] at scanned
    obtain ⟨current, toms, index⟩ := s
    simp only at one
    subst one
    simp [Storage.scan, walkToms, scanned]

theorem data_filed {s : Storage} {a b : RecordLog} {e : Entry UUID Payload}
    (filed : Filed s (a ++ e :: b)) {r : Record} (tom : r.tomId = firstTom)
    (place : r.offset = (logBytes a).length)
    (length : r.header.dataSize = e.data.bytes.length) :
    s.data r = (s, .ok e.data.bytes) := by
  obtain ⟨t, one, current, id, found, intact⟩ := tom_of_entry filed
  have read := data_at_entry intact place length
  simp [Storage.data, tom, found, read, setTom_same one]

theorem recordAt_filed {s : Storage} {a b : RecordLog} {e : Entry UUID Payload}
    (filed : Filed s (a ++ e :: b)) :
    s.recordAt firstTom (logBytes a).length =
      (s, .ok (recordFor firstTom (logBytes a).length e)) := by
  obtain ⟨t, one, current, id, found, intact⟩ := tom_of_entry filed
  have read := record_at_entry intact
  simp [Storage.recordAt, found, read, setTom_same one, id]

/- Reading a header anywhere leaves the storage as it was, unless the read runs
   over the end of the file: that is an input failure. -/
theorem recordAt_unchanged {s : Storage} {log : RecordLog} (filed : Filed s log)
    {id offset : Nat} (within : offset + headerSize ≤ (logBytes log).length ∨
      (logBytes log).length ≤ offset) : (s.recordAt id offset).1 = s := by
  by_cases elsewhere : id = firstTom
  · subst elsewhere
    rcases filed with ⟨empty, _, _⟩ | ⟨t, one, _, first, intact⟩
    · simp [Storage.recordAt, Storage.tom, empty]
    · have kept : (t.record offset).1 = t := by
        rcases within with inside | behind
        · have readable : t.tomF.good = true ∧ offset + headerSize ≤ t.tomF.bytes.length := by
            rw [intact.content]
            exact ⟨intact.good, inside⟩
          have before : offset < t.size := by
            rw [intact.sized]
            simp only [headerSize] at inside
            omega
          simp [Tom.record, before, FileStream.read, readable]
        · rw [record_behind_end (intact.sized ▸ behind)]
      have found : s.tom firstTom = some t := by simp [Storage.tom, one, first]
      simp [Storage.recordAt, found, kept, setTom_same one]
  · simp [Storage.recordAt, tom_elsewhere filed elsewhere]

theorem construct_filed (log : RecordLog) :
    ∃ s, Storage.construct [(firstTom, logBytes log)] = .ok s ∧ Filed s log ∧
      s.index = indexOf (liveFrom firstTom 0 log) fun _ => none := by
  let t := Tom.create firstTom (logBytes log)
  have intact : Intact t (logBytes log) := ⟨rfl,rfl,rfl,firstTom_real⟩
  have indexed := index_log intact fun _ => none
  have opened : [(firstTom, logBytes log)].foldl Storage.preOpen ⟨0,[],fun _ => none⟩ =
      ⟨firstTom,[t],fun _ => none⟩ := rfl
  refine ⟨⟨firstTom,[t],indexOf (liveFrom firstTom 0 log) fun _ => none⟩, ?_,
    Or.inr ⟨t, rfl, rfl, rfl, intact⟩, rfl⟩
  rw [Storage.construct, opened]
  simp only [Storage.rebuildIndex, walkToms, indexed]
  rfl

theorem reopen_filed {s : Storage} {log : RecordLog} (filed : Filed s log) :
    ∃ s', s.reopen = .ok s' ∧ Filed s' log ∧
      s'.index = indexOf (liveFrom firstTom 0 log) fun _ => none := by
  rcases filed with ⟨empty, _, rfl⟩ | ⟨t, one, _, id, intact⟩
  · refine ⟨fresh, ?_, Or.inl ⟨rfl,rfl,rfl⟩, rfl⟩
    simp [Storage.reopen, Storage.directory, empty, Storage.construct, Storage.rebuildIndex,
      walkToms, fresh]
  · have directory : s.directory = [(firstTom, logBytes log)] := by
      simp [Storage.directory, one, id, intact.content]
    rw [Storage.reopen, directory]
    exact construct_filed log

theorem represents_indexed {s : Storage} {log : RecordLog} (filed : Filed s log)
    (index : s.index = indexOf (liveFrom firstTom 0 log) fun _ => none)
    (distinct : (keys log).Nodup) (named : 0 ∉ keys log) : Represents s log where
  toms := filed
  index := by
    intro u
    have uuids : ((liveFrom firstTom 0 log).map fun x => x.1.header.uuid).Nodup := by
      rw [liveFrom_uuids]
      exact keys_live_nodup distinct
    simp [index, indexOf_lookup uuids]
  distinct := distinct
  named := named

theorem construct_log {log : RecordLog} (distinct : (keys log).Nodup) (named : 0 ∉ keys log) :
    ∃ s, Storage.construct [(firstTom, logBytes log)] = .ok s ∧ Represents s log := by
  obtain ⟨s, opened, filed, index⟩ := construct_filed log
  exact ⟨s, opened, represents_indexed filed index distinct named⟩

theorem reopen_represents {s : Storage} {log : RecordLog} (rep : Represents s log) :
    ∃ s', s.reopen = .ok s' ∧ Represents s' log := by
  obtain ⟨s', opened, filed, index⟩ := reopen_filed rep.toms
  exact ⟨s', opened, represents_indexed filed index rep.distinct rep.named⟩

end TinyMqRefinement
