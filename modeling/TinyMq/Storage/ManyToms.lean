import TinyMq.Storage.Refinement
import Mathlib.Data.List.Sort

/-!
A storage over any number of tom files, each of them a log. Its records lie one behind
the other in the order of the tom ids: an append adds one at the end, since the tom
that is appended to is the one of the highest id, and a removal marks one in place.
-/
namespace TinyMqManyToms
open ByteStrings TombstoneLog TinyMqTom TinyMqStorage TinyMqLogImage TinyMqRefinement

abbrev Logs := Nat → RecordLog

structure Holds (s : Storage) (logs : Logs) : Prop where
  distinct : (s.toms.map (·.id)).Nodup
  intact : ∀ t ∈ s.toms, Intact t (logBytes (logs t.id))
  current : (s.toms = [] ∧ s.currentTomId = 0) ∨
    s.currentTomId ∈ s.toms.map (·.id) ∧ ∀ t ∈ s.toms, t.id ≤ s.currentTomId

/-- An entry with the place it has. -/
structure Cell where
  tom : Nat
  offset : Nat
  entry : Entry UUID Payload
  deriving DecidableEq

def Cell.place (c : Cell) : Nat × Nat := (c.tom, c.offset)

def Cell.alive (c : Cell) : Bool := !c.entry.removed

def Cell.record (c : Cell) : Record := recordFor c.tom c.offset c.entry

def Cell.mark (c : Cell) : Cell := { c with entry := { c.entry with removed := true } }

def cellsFrom (tom : Nat) : Nat → RecordLog → List Cell
  | _, [] => []
  | offset, e :: log => ⟨tom, offset, e⟩ :: cellsFrom tom (offset + entrySize e) log

def cellsOf (logs : Logs) (ids : List Nat) : List Cell :=
  ids.flatMap fun id => cellsFrom id 0 (logs id)

def sortedIds (s : Storage) : List Nat := (s.toms.map (·.id)).insertionSort (· ≤ ·)

/-- All entries of the storage in the order of their places. -/
def cells (s : Storage) (logs : Logs) : List Cell := cellsOf logs (sortedIds s)

/-- The cells with those at the given places removed. -/
def markAt (places : List (Nat × Nat)) (cs : List Cell) : List Cell :=
  cs.map fun c => if c.place ∈ places then c.mark else c

section Cells

@[simp] theorem mark_place (c : Cell) : c.mark.place = c.place := rfl

@[simp] theorem cellsFrom_length (tom offset : Nat) (log : RecordLog) :
    (cellsFrom tom offset log).length = log.length := by
  induction log generalizing offset with
  | nil => rfl
  | cons e log ih => simp [cellsFrom, ih]

theorem cellsFrom_append (tom offset : Nat) (a b : RecordLog) :
    cellsFrom tom offset (a ++ b) =
      cellsFrom tom offset a ++ cellsFrom tom (offset + (logBytes a).length) b := by
  induction a generalizing offset with
  | nil => simp [cellsFrom]
  | cons e a ih => simp [cellsFrom, ih, Nat.add_assoc]

theorem cellsFrom_places {tom offset : Nat} {log : RecordLog} {c : Cell}
    (member : c ∈ cellsFrom tom offset log) : c.tom = tom ∧ offset ≤ c.offset := by
  induction log generalizing offset with
  | nil => cases member
  | cons e log ih =>
    rcases List.mem_cons.mp member with rfl | later
    · exact ⟨rfl, Nat.le_refl _⟩
    · have size := ih later
      omega

theorem liveFrom_cells (tom offset : Nat) (log : RecordLog) :
    liveFrom tom offset log = ((cellsFrom tom offset log).filter Cell.alive).map fun c =>
      (c.record, c.entry.data.bytes) := by
  induction log generalizing offset with
  | nil => rfl
  | cons e log ih =>
    cases removed : e.removed <;> simp [liveFrom, cellsFrom, Cell.alive, Cell.record, removed, ih]

theorem cellsFrom_nodup (tom offset : Nat) (log : RecordLog) :
    ((cellsFrom tom offset log).map Cell.place).Nodup := by
  induction log generalizing offset with
  | nil => exact List.nodup_nil
  | cons e log ih =>
    rw [cellsFrom, List.map_cons, List.nodup_cons]
    refine ⟨?_, ih _⟩
    intro member
    obtain ⟨c, later, same⟩ := List.mem_map.mp member
    have behind := (cellsFrom_places later).2
    have size := entrySize_large e
    have offsets : c.offset = offset := congrArg Prod.snd same
    omega

theorem cellsOf_tom {logs : Logs} {ids : List Nat} {c : Cell} (member : c ∈ cellsOf logs ids) :
    c.tom ∈ ids := by
  obtain ⟨id, inside, here⟩ := List.mem_flatMap.mp member
  rw [(cellsFrom_places here).1]
  exact inside

theorem cellsOf_nodup (logs : Logs) {ids : List Nat} (distinct : ids.Nodup) :
    ((cellsOf logs ids).map Cell.place).Nodup := by
  induction ids with
  | nil => exact List.nodup_nil
  | cons id ids ih =>
    obtain ⟨fresh, rest⟩ := List.nodup_cons.mp distinct
    rw [cellsOf, List.flatMap_cons, List.map_append]
    refine List.Nodup.append (cellsFrom_nodup _ _ _) (ih rest) ?_
    intro place first later
    obtain ⟨c, inside, rfl⟩ := List.mem_map.mp first
    obtain ⟨c', inside', same⟩ := List.mem_map.mp later
    have tom : c'.tom = c.tom := congrArg Prod.fst same
    have tom' := cellsOf_tom inside'
    rw [tom, (cellsFrom_places inside).1] at tom'
    exact fresh tom'

theorem cellsOf_update {logs : Logs} {ids : List Nat} {id : Nat} (absent : id ∉ ids)
    (log : RecordLog) : cellsOf (Function.update logs id log) ids = cellsOf logs ids := by
  unfold cellsOf
  apply List.flatMap_congr
  intro other member
  have differ : other ≠ id := fun same => absent (same ▸ member)
  rw [Function.update_of_ne differ]

theorem sortedIds_perm (s : Storage) : (sortedIds s).Perm (s.toms.map (·.id)) :=
  List.perm_insertionSort _ _

theorem sortedIds_sorted (s : Storage) : (sortedIds s).Pairwise (· ≤ ·) :=
  List.pairwise_insertionSort _ _

theorem Holds.sorted_nodup {s : Storage} {logs : Logs} (holds : Holds s logs) :
    (sortedIds s).Nodup := (sortedIds_perm s).nodup_iff.mpr holds.distinct

theorem Holds.places_nodup {s : Storage} {logs : Logs} (holds : Holds s logs) :
    ((cells s logs).map Cell.place).Nodup := cellsOf_nodup logs holds.sorted_nodup

@[simp] theorem markAt_length (places : List (Nat × Nat)) (cs : List Cell) :
    (markAt places cs).length = cs.length := List.length_map ..

theorem markAt_append (places : List (Nat × Nat)) (a b : List Cell) :
    markAt places (a ++ b) = markAt places a ++ markAt places b := List.map_append

theorem markAt_absent {places : List (Nat × Nat)} {cs : List Cell}
    (absent : ∀ c ∈ cs, c.place ∉ places) : markAt places cs = cs := by
  unfold markAt
  rw [List.map_congr_left fun c member => if_neg (absent c member), List.map_id'']
  exact fun _ => rfl

theorem markAt_places (places : List (Nat × Nat)) (cs : List Cell) :
    (markAt places cs).map Cell.place = cs.map Cell.place := by
  rw [markAt, List.map_map]
  apply List.map_congr_left
  intro c _
  simp only [Function.comp_apply]
  split <;> rfl

theorem markAt_markAt (first second : List (Nat × Nat)) (cs : List Cell) :
    markAt second (markAt first cs) = markAt (first ++ second) cs := by
  rw [markAt, markAt, List.map_map]
  apply List.map_congr_left
  intro c _
  simp only [Function.comp_apply, List.mem_append]
  by_cases one : c.place ∈ first
  · by_cases two : c.place ∈ second <;> simp [one, two, Cell.mark]
  · by_cases two : c.place ∈ second <;> simp [one, two]

theorem markAt_split {a b : List Cell} {c : Cell}
    (distinct : ((a ++ c :: b).map Cell.place).Nodup) :
    markAt [c.place] (a ++ c :: b) = a ++ c.mark :: b := by
  have apart : ∀ d, d ∈ a ∨ d ∈ b → d.place ∉ [c.place] := by
    intro d member same
    rw [List.mem_singleton] at same
    rw [List.map_append, List.map_cons, List.nodup_append, List.nodup_cons] at distinct
    rcases member with before | behind
    · exact distinct.2.2 _ (List.mem_map_of_mem before) c.place (by simp) same
    · exact distinct.2.1.1 (same ▸ List.mem_map_of_mem behind)
  have here : markAt [c.place] (c :: b) = c.mark :: markAt [c.place] b := by
    simp [markAt]
  rw [markAt_append, here, markAt_absent fun d member => apart d (Or.inl member),
    markAt_absent fun d member => apart d (Or.inr member)]

end Cells

section Logs

theorem headerFor_injective {e e' : Entry UUID Payload} (headers : headerFor e = headerFor e')
    (data : e.data.bytes = e'.data.bytes) : e = e' := by
  obtain ⟨key, ⟨bytes, nonempty, bounded⟩, removed⟩ := e
  obtain ⟨key', ⟨bytes', nonempty', bounded'⟩, removed'⟩ := e'
  simp only [headerFor, Header.mk.injEq] at headers data
  obtain ⟨rfl, -, flags⟩ := headers
  subst data
  have same : removed = removed' := by
    cases removed <;> cases removed' <;> simp [flagOf] at flags ⊢
  rw [same]

theorem logBytes_injective {a b : RecordLog} (same : logBytes a = logBytes b) : a = b := by
  induction a generalizing b with
  | nil =>
    have none_ : b.length ≤ 0 := by
      have bound := log_length_le_bytes b
      rwa [← same] at bound
    exact (List.length_eq_zero_iff.mp (Nat.le_zero.mp none_)).symm
  | cons e a ih =>
    cases b with
    | nil =>
      have bound := log_length_le_bytes (e :: a)
      rw [same] at bound
      simp at bound
    | cons e' b =>
      simp only [logBytes_cons, entryBytes, List.append_assoc] at same
      obtain ⟨headers, rest⟩ := List.append_inj same (by simp)
      have decoded := congrArg headerOf headers
      rw [headerOf_headerBytes e.data.bounded, headerOf_headerBytes e'.data.bounded] at decoded
      have sizes : e.data.bytes.length = e'.data.bytes.length := congrArg Header.dataSize decoded
      obtain ⟨data, later⟩ := List.append_inj rest sizes
      rw [headerFor_injective decoded data, ih later]

theorem Holds.cells_unique {s : Storage} {logs logs' : Logs} (holds : Holds s logs)
    (holds' : Holds s logs') : cells s logs = cells s logs' := by
  unfold cells cellsOf
  apply List.flatMap_congr
  intro id member
  obtain ⟨t, inside, rfl⟩ := List.mem_map.mp ((sortedIds_perm s).mem_iff.mp member)
  have image := (holds.intact t inside).content.symm.trans (holds'.intact t inside).content
  rw [logBytes_injective image]

end Logs

section Operations
variable {s : Storage} {logs : Logs}

theorem tom_found (holds : Holds s logs) {t : Tom} (member : t ∈ s.toms) : s.tom t.id = some t := by
  have first : ∀ toms : List Tom, (toms.map (·.id)).Nodup → t ∈ toms →
      toms.find? (·.id = t.id) = some t := by
    intro toms
    induction toms with
    | nil => exact fun _ inside => by cases inside
    | cons u toms ih =>
      intro distinct inside
      obtain ⟨fresh, rest⟩ := List.nodup_cons.mp distinct
      rcases List.mem_cons.mp inside with rfl | later
      · simp
      · have differ : u.id ≠ t.id := fun same =>
          fresh (List.mem_map.mpr ⟨t, later, same.symm⟩)
        rw [List.find?_cons_of_neg (by simpa using differ)]
        exact ih rest later
  exact first s.toms holds.distinct member

theorem setTom_self (holds : Holds s logs) {t : Tom} (member : t ∈ s.toms) : s.setTom t = s := by
  have same : s.toms.map (fun u => if u.id = t.id then t else u) = s.toms := by
    have fixed : ∀ u ∈ s.toms, (if u.id = t.id then t else u) = id u := by
      intro u inside
      split
      · rename_i ids
        have first := tom_found holds inside
        rw [ids, tom_found holds member, Option.some.injEq] at first
        exact first
      · rfl
    rw [List.map_congr_left fixed, List.map_id]
  unfold Storage.setTom
  rw [same]

theorem setTom_ids (t' : Tom) :
    (s.setTom t').toms.map (·.id) = s.toms.map (·.id) := by
  simp only [Storage.setTom, List.map_map]
  apply List.map_congr_left
  intro u _
  simp only [Function.comp_apply]
  split
  · rename_i same
    exact same.symm
  · rfl

theorem setTom_holds (holds : Holds s logs) {t t' : Tom} (member : t ∈ s.toms) (id : t'.id = t.id)
    {log : RecordLog} (intact : Intact t' (logBytes log)) {index : UUID → Option Record} :
    Holds { s.setTom t' with index := index } (Function.update logs t.id log) := by
  have ids := @setTom_ids s t'
  constructor
  · show ((s.setTom t').toms.map (·.id)).Nodup
    rw [ids]
    exact holds.distinct
  · intro u inside
    obtain ⟨v, old, rfl⟩ := List.mem_map.mp inside
    split
    · rw [id, Function.update_self]
      exact intact
    · rename_i differ
      rw [id] at differ
      rw [Function.update_of_ne differ]
      exact holds.intact v old
  · right
    rcases holds.current with ⟨none_, -⟩ | ⟨current, highest⟩
    · rw [none_] at member
      cases member
    · refine ⟨?_, ?_⟩
      · show s.currentTomId ∈ (s.setTom t').toms.map (·.id)
        rw [ids]
        exact current
      · intro u inside
        have place : u.id ∈ (s.setTom t').toms.map (·.id) := List.mem_map_of_mem inside
        rw [ids] at place
        obtain ⟨v, old, same⟩ := List.mem_map.mp place
        rw [← same]
        exact highest v old

theorem setTom_sortedIds (t' : Tom) (index : UUID → Option Record) :
    sortedIds { s.setTom t' with index := index } = sortedIds s := by
  unfold sortedIds
  rw [show ({ s.setTom t' with index := index } : Storage).toms.map (·.id) = s.toms.map (·.id) from
    setTom_ids t']

theorem cells_around (holds : Holds s logs) {id : Nat} (member : id ∈ s.toms.map (·.id)) :
    ∃ front back, sortedIds s = front ++ id :: back ∧ id ∉ front ∧ id ∉ back ∧ ∀ log : RecordLog,
      cellsOf (Function.update logs id log) (sortedIds s) =
        cellsOf logs front ++ cellsFrom id 0 log ++ cellsOf logs back := by
  obtain ⟨front, back, split⟩ := List.append_of_mem ((sortedIds_perm s).mem_iff.mpr member)
  have distinct := holds.sorted_nodup
  rw [split, List.nodup_append, List.nodup_cons] at distinct
  have before : id ∉ front := fun inside => distinct.2.2 id inside id (by simp) rfl
  have behind : id ∉ back := distinct.2.1.1
  refine ⟨front, back, split, before, behind, ?_⟩
  intro log
  have part : ∀ logs : Logs, cellsOf logs (front ++ id :: back) =
      cellsOf logs front ++ cellsFrom id 0 (logs id) ++ cellsOf logs back := by
    intro logs
    simp [cellsOf, List.flatMap_append, List.flatMap_cons]
  rw [split, part, Function.update_self, cellsOf_update before, cellsOf_update behind]

theorem cellsFrom_mem {tom offset : Nat} {log : RecordLog} {c : Cell}
    (member : c ∈ cellsFrom tom offset log) :
    ∃ a b, log = a ++ c.entry :: b ∧ c.offset = offset + (logBytes a).length := by
  induction log generalizing offset with
  | nil => cases member
  | cons e log ih =>
    rcases List.mem_cons.mp member with rfl | later
    · exact ⟨[], log, rfl, by simp⟩
    · obtain ⟨a, b, rfl, place⟩ := ih later
      refine ⟨e :: a, b, rfl, ?_⟩
      rw [place, logBytes_cons, List.length_append, entryBytes_length]
      omega

theorem cell_tom (holds : Holds s logs) {c : Cell} (member : c ∈ cells s logs) :
    ∃ t ∈ s.toms, t.id = c.tom ∧ ∃ a b, logs c.tom = a ++ c.entry :: b ∧
      c.offset = (logBytes a).length ∧
      Intact t (logBytes a ++ entryBytes c.entry ++ logBytes b) := by
  obtain ⟨id, inside, here⟩ := List.mem_flatMap.mp member
  obtain rfl := (cellsFrom_places here).1
  obtain ⟨t, found, same⟩ := List.mem_map.mp ((sortedIds_perm s).mem_iff.mp inside)
  obtain ⟨a, b, split, place⟩ := cellsFrom_mem here
  refine ⟨t, found, same, a, b, split, by simpa using place, ?_⟩
  have intact := holds.intact t found
  rw [same, split] at intact
  simpa using intact

theorem cells_at (holds : Holds s logs) {c : Cell} (member : c ∈ cells s logs) :
    ∃ t ∈ s.toms, t.id = c.tom ∧ ∃ front back a b, sortedIds s = front ++ c.tom :: back ∧
      (∀ id ∈ front, id < c.tom) ∧ logs c.tom = a ++ c.entry :: b ∧
      c.offset = (logBytes a).length ∧
      cells s logs = (cellsOf logs front ++ cellsFrom c.tom 0 a) ++ c ::
        (cellsFrom c.tom (c.offset + entrySize c.entry) b ++ cellsOf logs back) := by
  obtain ⟨t, inside, id, a, b, split, offset, -⟩ := cell_tom holds member
  obtain ⟨front, back, ids, absent, -, around⟩ :=
    cells_around holds (List.mem_map.mpr ⟨t, inside, id⟩ : c.tom ∈ s.toms.map (·.id))
  refine ⟨t, inside, id, front, back, a, b, ids, ?_, split, offset, ?_⟩
  · intro i before
    have sorted := sortedIds_sorted s
    rw [ids, List.pairwise_append] at sorted
    have below := sorted.2.2 i before c.tom (by simp)
    have differ : i ≠ c.tom := fun same => absent (same ▸ before)
    omega
  · have here := around (logs c.tom)
    rw [Function.update_eq_self, split, cellsFrom_append, Nat.zero_add, ← offset, cellsFrom] at here
    rw [cells, here]
    simp

theorem cells_marked (holds : Holds s logs) {c : Cell} (member : c ∈ cells s logs)
    {a b : RecordLog} (split : logs c.tom = a ++ c.entry :: b)
    (place : c.offset = (logBytes a).length) :
    cellsOf (Function.update logs c.tom (a ++ { c.entry with removed := true } :: b)) (sortedIds s) =
      markAt [c.place] (cells s logs) := by
  have tom : c.tom ∈ s.toms.map (·.id) := (sortedIds_perm s).mem_iff.mp (cellsOf_tom member)
  obtain ⟨front, back, -, -, -, around⟩ := cells_around holds tom
  have parts : ∀ e, entrySize e = entrySize c.entry → cellsFrom c.tom 0 (a ++ e :: b) =
      cellsFrom c.tom 0 a ++ ⟨c.tom, c.offset, e⟩ ::
        cellsFrom c.tom (c.offset + entrySize c.entry) b := by
    intro e size
    rw [cellsFrom_append, Nat.zero_add, ← place, cellsFrom, size]
  have now : cells s logs = (cellsOf logs front ++ cellsFrom c.tom 0 a) ++ c ::
      (cellsFrom c.tom (c.offset + entrySize c.entry) b ++ cellsOf logs back) := by
    have here := around (logs c.tom)
    rw [Function.update_eq_self, split, parts c.entry rfl] at here
    rw [cells, here]
    simp
  have distinct := holds.places_nodup
  rw [now] at distinct
  rw [around, parts { c.entry with removed := true } rfl, now, markAt_split distinct]
  simp [Cell.mark]

theorem remove_holds (holds : Holds s logs) {c : Cell} (member : c ∈ cells s logs) {r : Record}
    (tom : r.tomId = c.tom) (place : r.offset = c.offset)
    (flag : r.header.deleted ≠ 0 → c.entry.removed = true) :
    ∃ s' r' logs', s.remove r none = (s', .ok (r', true)) ∧ Holds s' logs' ∧
      cells s' logs' = markAt [c.place] (cells s logs) := by
  obtain ⟨t, inside, id, a, b, split, offset, intact⟩ := cell_tom holds member
  have found : s.tom r.tomId = some t := by
    rw [tom, ← id]
    exact tom_found holds inside
  obtain ⟨uuid, recovered⟩ : ∃ uuid, recoverUuid t r = (t, uuid) := by
    unfold recoverUuid
    split
    · rw [place, offset, record_at_entry intact]
      exact ⟨_, rfl⟩
    · exact ⟨_, rfl⟩
  have marked : ∃ t' r', t.remove r none = (t', r', true) ∧ t'.id = t.id ∧
      Intact t' (logBytes a ++ entryBytes { c.entry with removed := true } ++ logBytes b) := by
    by_cases unmarked : r.header.deleted = 0
    · obtain ⟨t', written, id', intact'⟩ := remove_entry intact (place.trans offset) unmarked
      exact ⟨t', _, written, id', intact'⟩
    · have already : ({ c.entry with removed := true } : Entry UUID Payload) = c.entry := by
        rw [← flag unmarked]
      refine ⟨t, r, by simp [Tom.remove, unmarked], rfl, ?_⟩
      rw [already]
      exact intact
  obtain ⟨t', r', written, id', intact'⟩ := marked
  have image : Intact t' (logBytes (a ++ { c.entry with removed := true } :: b)) := by
    simpa using intact'
  have holds' := fun index => @setTom_holds s logs holds t t' inside id' _ image index
  have after : ∀ index, cells { s.setTom t' with index := index }
      (Function.update logs t.id (a ++ { c.entry with removed := true } :: b)) =
        markAt [c.place] (cells s logs) := by
    intro index
    rw [cells, setTom_sortedIds, id, cells_marked holds member split offset]
  simp only [Storage.remove, found, recovered, written]
  by_cases named : uuid = 0
  · rw [if_neg (by simp [named])]
    exact ⟨_, r', _, rfl, holds' s.index, after s.index⟩
  · rw [if_pos ⟨trivial, named⟩]
    exact ⟨_, r', _, rfl, holds' _, after _⟩

theorem current_last (holds : Holds s logs) {t : Tom} (member : t ∈ s.toms)
    (current : t.id = s.currentTomId) :
    ∃ front, sortedIds s = front ++ [t.id] ∧ t.id ∉ front := by
  obtain ⟨front, back, split, absent, behind, -⟩ :=
    cells_around holds (List.mem_map_of_mem member : t.id ∈ s.toms.map (·.id))
  refine ⟨front, ?_, absent⟩
  rw [split]
  cases back with
  | nil => rfl
  | cons id back =>
    have sorted := sortedIds_sorted s
    rw [split, List.pairwise_append, List.pairwise_cons] at sorted
    have above : t.id ≤ id := sorted.2.1.1 id (by simp)
    have inside : id ∈ s.toms.map (·.id) := by
      rw [← (sortedIds_perm s).mem_iff, split]
      simp
    obtain ⟨u, known, rfl⟩ := List.mem_map.mp inside
    rcases holds.current with ⟨none_, -⟩ | ⟨-, highest⟩
    · rw [none_] at known
      cases known
    · have below := highest u known
      have same : t.id = u.id := by omega
      exact absurd (by simp [same]) behind

theorem append_first (none_ : s.toms = []) (current : s.currentTomId = 0) (u : UUID) (d : Payload) :
    ∃ s' c logs', s.append u d.bytes none = (s', .ok c.record) ∧ c.entry = ⟨u,d,false⟩ ∧
      Holds s' logs' ∧ cells s' logs' = [c] := by
  have filed : Filed s [] := Or.inl ⟨none_, current, rfl⟩
  obtain ⟨s', done, filed', -⟩ := append_filed filed u d
  rcases filed' with ⟨-, -, empty⟩ | ⟨t, one, now, id, intact⟩
  · simp [append] at empty
  · refine ⟨s', ⟨firstTom, 0, ⟨u,d,false⟩⟩, fun _ => append [] u d, done, rfl, ?_, ?_⟩
    · constructor
      · simp [one]
      · intro v member
        rw [one, List.mem_singleton] at member
        rw [member]
        exact intact
      · right
        rw [one, now, List.map_singleton, List.mem_singleton]
        refine ⟨id.symm, ?_⟩
        intro v member
        rw [List.mem_singleton.mp member, id]
    · have ids : sortedIds s' = [firstTom] := by
        rw [sortedIds, one, List.map_singleton, id]
        rfl
      simp [cells, ids, cellsOf, append, cellsFrom]

theorem append_holds (holds : Holds s logs) (u : UUID) (d : Payload) :
    ∃ s' c logs', s.append u d.bytes none = (s', .ok c.record) ∧ c.entry = ⟨u,d,false⟩ ∧
      Holds s' logs' ∧ cells s' logs' = cells s logs ++ [c] := by
  rcases holds.current with ⟨none_, current⟩ | ⟨current, -⟩
  · obtain ⟨s', c, logs', done, entry, holds', here⟩ := append_first none_ current u d
    have empty : cells s logs = [] := by simp [cells, sortedIds, none_, cellsOf]
    exact ⟨s', c, logs', done, entry, holds', by rw [here, empty, List.nil_append]⟩
  · obtain ⟨t, member, id⟩ := List.mem_map.mp current
    obtain ⟨t', written, id', intact⟩ := append_entry (holds.intact t member) u d
    have found : s.currentTom = (s, .ok t) := by
      rw [Storage.currentTom, ← show t.id = s.currentTomId from id, tom_found holds member]
    have filled : d.bytes.isEmpty = false := by simpa using d.nonempty
    let c : Cell := ⟨t.id, (logBytes (logs t.id)).length, ⟨u,d,false⟩⟩
    let index := Function.update s.index u (some c.record)
    have image : Intact t' (logBytes (logs t.id ++ [⟨u,d,false⟩])) := by simpa using intact
    refine ⟨{ s.setTom t' with index := index }, c, _, ?_, rfl,
      setTom_holds holds member id' image, ?_⟩
    · simp only [Storage.append, filled, found, written]
      rfl
    · obtain ⟨front, last, absent⟩ := current_last holds member id
      have whole : ∀ logs : Logs, cellsOf logs (front ++ [t.id]) =
          cellsOf logs front ++ cellsFrom t.id 0 (logs t.id) := by
        intro logs
        simp [cellsOf]
      rw [cells, setTom_sortedIds, cells, last, whole, whole, Function.update_self,
        cellsOf_update absent, cellsFrom_append, Nat.zero_add, List.append_assoc]
      rfl

end Operations

section Directories

def imageOf (files : List (Nat × RecordLog)) : Directory :=
  files.map fun f => (f.1, logBytes f.2)

theorem preOpen_holds {s : Storage} {logs : Logs} (holds : Holds s logs) {id : Nat}
    (new : id ∉ s.toms.map (·.id)) (real : id ≠ noTom) :
    Holds (s.preOpen (id, logBytes (logs id))) logs ∧
      (s.preOpen (id, logBytes (logs id))).toms.map (·.id) = s.toms.map (·.id) ++ [id] := by
  have absent : s.contains id = false := by
    simpa [Storage.contains] using new
  simp only [Storage.preOpen, absent, Bool.false_eq_true, if_false]
  refine ⟨?_, by simp [Tom.create]⟩
  constructor
  · have fresh : ∀ t ∈ s.toms, t.id ≠ id := by
      intro t member same
      exact new (List.mem_map.mpr ⟨t, member, same⟩)
    simpa [List.nodup_append, Tom.create, holds.distinct] using fresh
  · intro t member
    rcases List.mem_append.mp member with old | last
    · exact holds.intact t old
    · rw [List.mem_singleton.mp last]
      exact ⟨rfl, rfl, rfl, real⟩
  · right
    rcases holds.current with ⟨none_, zero⟩ | ⟨current, highest⟩
    · simp [none_, zero, Tom.create]
    · refine ⟨?_, ?_⟩
      · rcases Nat.le_total s.currentTomId id with above | below
        · simp [Nat.max_eq_right above, Tom.create]
        · rw [show max s.currentTomId id = s.currentTomId from Nat.max_eq_left below,
            List.map_append]
          exact List.mem_append_left _ current
      · intro t member
        rcases List.mem_append.mp member with old | last
        · have bound := highest t old
          show t.id ≤ max s.currentTomId id
          omega
        · rw [List.mem_singleton.mp last]
          exact Nat.le_max_right _ _

theorem preOpens_hold {logs : Logs} {ids : List Nat} {s : Storage} (holds : Holds s logs)
    (distinct : (s.toms.map (·.id) ++ ids).Nodup) (real : ∀ id ∈ ids, id ≠ noTom) :
    Holds ((ids.map fun id => (id, logBytes (logs id))).foldl Storage.preOpen s) logs ∧
      ((ids.map fun id => (id, logBytes (logs id))).foldl Storage.preOpen s).toms.map (·.id) =
        s.toms.map (·.id) ++ ids := by
  induction ids generalizing s with
  | nil => exact ⟨holds, (List.append_nil _).symm⟩
  | cons id ids ih =>
    have new : id ∉ s.toms.map (·.id) := by
      intro member
      exact (List.nodup_append.mp distinct).2.2 id member id (by simp) rfl
    obtain ⟨opened, place⟩ := preOpen_holds holds new (real id (by simp))
    have later := @ih (s.preOpen (id, logBytes (logs id))) opened
      (by rw [place]; simpa using distinct) (fun i member => real i (List.mem_cons_of_mem _ member))
    rw [List.map_cons, List.foldl_cons]
    refine ⟨later.1, ?_⟩
    rw [later.2, place, List.append_assoc]
    rfl

theorem index_holds {logs : Logs} {toms : List Tom}
    (intact : ∀ t ∈ toms, Intact t (logBytes (logs t.id))) (index : UUID → Option Record) :
    ∃ index', walkToms indexVisit toms index = (toms, .ok index') := by
  induction toms generalizing index with
  | nil => exact ⟨index, rfl⟩
  | cons t toms ih =>
    have first := index_log (intact t (by simp)) index
    obtain ⟨index', rest⟩ := ih (fun u member => intact u (List.mem_cons_of_mem t member))
      (indexOf (liveFrom t.id 0 (logs t.id)) index)
    exact ⟨index', by simp only [walkToms, first, rest]⟩

theorem construct_holds {files : List (Nat × RecordLog)} (distinct : (files.map Prod.fst).Nodup)
    (real : ∀ f ∈ files, f.1 ≠ noTom) :
    ∃ s logs, Storage.construct (imageOf files) = .ok s ∧ Holds s logs ∧
      s.toms.map (·.id) = files.map Prod.fst ∧ ∀ f ∈ files, logs f.1 = f.2 := by
  obtain ⟨logs, known⟩ : ∃ logs : Logs, ∀ f ∈ files, logs f.1 = f.2 := by
    refine ⟨fun id => ((files.find? (·.1 = id)).map Prod.snd).getD [], ?_⟩
    intro f member
    obtain ⟨g, found⟩ : ∃ g, files.find? (·.1 = f.1) = some g := by
      rw [← Option.isSome_iff_exists, List.find?_isSome]
      exact ⟨f, member, by simp⟩
    have inside := List.mem_of_find?_eq_some found
    have same : g.1 = f.1 := by simpa using List.find?_some found
    simp only [found, Option.map_some, Option.getD_some]
    rw [List.inj_on_of_nodup_map distinct inside member same]
  have image : imageOf files = (files.map Prod.fst).map fun id => (id, logBytes (logs id)) := by
    rw [imageOf, List.map_map]
    apply List.map_congr_left
    intro f member
    simp [known f member]
  have empty : Holds ⟨0,[],fun _ => none⟩ logs :=
    ⟨List.nodup_nil, fun t member => (by cases member), Or.inl ⟨rfl, rfl⟩⟩
  obtain ⟨holds, ids⟩ := preOpens_hold empty (by simpa using distinct)
    (fun id member => by
      obtain ⟨f, inside, rfl⟩ := List.mem_map.mp member
      exact real f inside)
  rw [List.map_nil, List.nil_append] at ids
  rw [← image] at holds ids
  obtain ⟨index, built⟩ := index_holds holds.intact
    ((imageOf files).foldl Storage.preOpen ⟨0,[],fun _ => none⟩).index
  refine ⟨{ (imageOf files).foldl Storage.preOpen ⟨0,[],fun _ => none⟩ with index := index }, logs,
    ?_, ⟨holds.distinct, holds.intact, holds.current⟩, ids, known⟩
  simp only [Storage.construct, Storage.rebuildIndex, built]

theorem scan_holds {s : Storage} {logs : Logs} (holds : Holds s logs) :
    ∃ seen, s.scan = (s, .ok seen) ∧
      ∀ x, x ∈ seen ↔ ∃ c ∈ cells s logs, c.alive = true ∧ x = (c.record, c.entry.data.bytes) := by
  have walked : ∀ toms : List Tom, (∀ t ∈ toms, Intact t (logBytes (logs t.id))) → ∀ acc,
      walkToms scanVisit toms acc =
        (toms, .ok (acc ++ toms.flatMap fun t => liveFrom t.id 0 (logs t.id))) := by
    intro toms
    induction toms with
    | nil => exact fun _ acc => by simp [walkToms]
    | cons t toms ih =>
      intro intact acc
      have rest := ih (fun u member => intact u (List.mem_cons_of_mem t member))
        (acc ++ liveFrom t.id 0 (logs t.id))
      simp only [walkToms, scan_log (intact t (by simp)), rest]
      simp [List.append_assoc]
  refine ⟨s.toms.flatMap fun t => liveFrom t.id 0 (logs t.id), ?_, ?_⟩
  · simp only [Storage.scan, walked s.toms holds.intact, List.nil_append]
  · intro x
    simp only [liveFrom_cells, List.mem_flatMap, List.mem_map, List.mem_filter, cells, cellsOf]
    constructor
    · rintro ⟨t, member, c, ⟨inside, alive⟩, rfl⟩
      exact ⟨c, ⟨t.id, (sortedIds_perm s).mem_iff.mpr (List.mem_map_of_mem member), inside⟩,
        alive, rfl⟩
    · rintro ⟨c, ⟨id, member, inside⟩, alive, rfl⟩
      obtain ⟨t, here, rfl⟩ := List.mem_map.mp ((sortedIds_perm s).mem_iff.mp member)
      exact ⟨t, here, c, ⟨inside, alive⟩, rfl⟩

theorem reopen_holds {s : Storage} {logs : Logs} (holds : Holds s logs) :
    ∃ s' logs', s.reopen = .ok s' ∧ Holds s' logs' ∧ cells s' logs' = cells s logs := by
  let files := s.toms.map fun t => (t.id, logs t.id)
  have names : files.map Prod.fst = s.toms.map (·.id) := by simp [files]
  have image : s.directory = imageOf files := by
    simp only [Storage.directory, imageOf, files, List.map_map]
    apply List.map_congr_left
    intro t member
    simp [(holds.intact t member).content]
  obtain ⟨s', logs', opened, holds', ids, known⟩ := @construct_holds files
    (by rw [names]; exact holds.distinct) (by
      intro f member
      obtain ⟨t, here, rfl⟩ := List.mem_map.mp member
      exact (holds.intact t here).real)
  refine ⟨s', logs', by rw [Storage.reopen, image, opened], holds', ?_⟩
  have order : sortedIds s' = sortedIds s := by rw [sortedIds, ids, names, sortedIds]
  rw [cells, cells, order]
  apply List.flatMap_congr
  intro id member
  obtain ⟨t, here, rfl⟩ := List.mem_map.mp ((sortedIds_perm s).mem_iff.mp member)
  rw [known (t.id, logs t.id) (List.mem_map_of_mem here)]

end Directories

end TinyMqManyToms
