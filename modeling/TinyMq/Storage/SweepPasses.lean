import TinyMq.Lib.Machines
import TinyMq.Storage.ManyToms
import TinyMq.Storage.Sweep

/-!
Whole passes of the sweep over any number of toms, with appends and removals between the
calls. The cursor of an unfinished pass stands behind the last record that was inspected,
so the records before it have had their turn and those behind it are still to come.
-/
namespace TinyMqSweepPasses
open ByteStrings TombstoneLog Machines TinyMqTom TinyMqStorage TinyMqLogImage
open TinyMqManyToms TinyMqSweep

section Chunks

def behind (c : Cell) : SweepCursor := ⟨c.tom, c.offset + entrySize c.entry⟩

def shown (len : Nat) (c : Cell) : Record × Bytes :=
  (recordFor c.tom c.offset { c.entry with removed := false }, c.entry.data.bytes.take len)

def shownLive (len : Nat) (cs : List Cell) : List (Record × Bytes) :=
  (cs.filter Cell.alive).map (shown len)

@[simp] theorem shownLive_nil (len : Nat) : shownLive len [] = [] := rfl

@[simp] theorem shownLive_append (len : Nat) (a b : List Cell) :
    shownLive len (a ++ b) = shownLive len a ++ shownLive len b := by
  simp [shownLive]

theorem heads_live (len tom offset : Nat) (log : RecordLog) :
    heads len (liveFrom tom offset log) = shownLive len (cellsFrom tom offset log) := by
  rw [heads, shownLive, liveFrom_cells, List.map_map]
  apply List.map_congr_left
  intro c member
  have removed : c.entry.removed = false := by simpa [Cell.alive] using List.of_mem_filter member
  have same : ({ c.entry with removed := false } : Entry UUID Payload) = c.entry := by rw [← removed]
  simp [shown, Cell.record, same]

theorem cellsFrom_take (tom offset : Nat) (log : RecordLog) (n : Nat) :
    cellsFrom tom offset (log.take n) = (cellsFrom tom offset log).take n := by
  induction log generalizing offset n with
  | nil => simp [cellsFrom]
  | cons e log ih =>
    cases n with
    | zero => rfl
    | succ n => simp [cellsFrom, ih]

theorem last_behind (tom offset : Nat) {log : RecordLog} (some_ : log ≠ []) :
    ∃ c, (cellsFrom tom offset log).getLast? = some c ∧
      behind c = ⟨tom, offset + (logBytes log).length⟩ := by
  obtain ⟨front, e, rfl⟩ := List.eq_nil_or_concat log |>.resolve_left some_
  refine ⟨⟨tom, offset + (logBytes front).length, e⟩, ?_, ?_⟩
  · rw [List.concat_eq_append, cellsFrom_append]
    simp [cellsFrom]
  · simp [behind, Nat.add_assoc]

/-- Where a call leaves the cursor: behind the last record that the budget paid for, or at its
    default when the budget was not used up. -/
def Ends (rest : List Cell) (budget : Nat) (cursor : SweepCursor) : Prop :=
  if budget ≤ rest.length then ∃ c, (rest.take budget).getLast? = some c ∧ cursor = behind c
  else cursor = {}

variable {s : Storage} {logs : Logs} {len : Nat} {cursor : SweepCursor}

theorem scanTom_cells (some_ : 0 < len) {t : Tom} {a b : RecordLog}
    (intact : Intact t (logBytes (a ++ b))) (budget : Nat) (result : List (Record × Bytes)) :
    scanTom len budget t (logBytes a).length result =
      (t, .ok (result ++ shownLive len ((cellsFrom t.id (logBytes a).length b).take budget),
        if budget ≤ b.length then
          .full ((logBytes a).length + (logBytes (b.take budget)).length)
        else .ended (budget - b.length))) := by
  rw [logBytes_append] at intact
  rw [scanTom_entries some_ b (logBytes a) intact, heads_live, cellsFrom_take]

/-- The rest of a call, from a tom on that is read from its beginning. -/
def GoesOn (s : Storage) (logs : Logs) (len : Nat) (cursor : SweepCursor) (ids : List Nat) : Prop :=
  ∀ budget, 0 < budget → ∀ result, ∃ cursor',
    scanToms len cursor ids false budget s result =
      (s, .ok (result ++ shownLive len ((cellsOf logs ids).take budget), cursor')) ∧
    Ends (cellsOf logs ids) budget cursor'

theorem scanToms_from (holds : Holds s logs) (some_ : 0 < len) {t : Tom} (member : t ∈ s.toms)
    {ids : List Nat} {a b : RecordLog} (split : logs t.id = a ++ b) {resuming : Bool}
    (reached : ¬ (resuming = true ∧ t.id < cursor.tomId))
    (place : (if resuming = true ∧ t.id = cursor.tomId then cursor.offset else 0) =
      (logBytes a).length)
    (later : GoesOn s logs len cursor ids) {budget : Nat} (positive : 0 < budget)
    (result : List (Record × Bytes)) :
    ∃ cursor', scanToms len cursor (t.id :: ids) resuming budget s result =
        (s, .ok (result ++ shownLive len
          ((cellsFrom t.id (logBytes a).length b ++ cellsOf logs ids).take budget), cursor')) ∧
      Ends (cellsFrom t.id (logBytes a).length b ++ cellsOf logs ids) budget cursor' := by
  have intact := holds.intact t member
  rw [split] at intact
  have chunk := scanTom_cells some_ intact budget result
  by_cases full : budget ≤ b.length
  · rw [if_pos full] at chunk
    have part : b.take budget ≠ [] := by
      intro empty
      have size := congrArg List.length empty
      rw [List.length_take, List.length_nil] at size
      omega
    obtain ⟨c, last, ends⟩ := last_behind t.id (logBytes a).length part
    rw [cellsFrom_take] at last
    have window : (cellsFrom t.id (logBytes a).length b ++ cellsOf logs ids).take budget =
        (cellsFrom t.id (logBytes a).length b).take budget :=
      List.take_append_of_le_length (by simpa using full)
    refine ⟨behind c, ?_, ?_⟩
    · rw [window, ends]
      simp only [scanToms, if_neg reached, tom_found holds member, place, chunk,
        setTom_self holds member]
    · rw [Ends, if_pos (by simp only [List.length_append, cellsFrom_length]; omega), window]
      exact ⟨c, last, rfl⟩
  · rw [if_neg full] at chunk
    have whole : (cellsFrom t.id (logBytes a).length b).take budget =
        cellsFrom t.id (logBytes a).length b := List.take_of_length_le (by simp; omega)
    have window : (cellsFrom t.id (logBytes a).length b ++ cellsOf logs ids).take budget =
        cellsFrom t.id (logBytes a).length b ++ (cellsOf logs ids).take (budget - b.length) := by
      rw [List.take_append, whole, cellsFrom_length]
    obtain ⟨cursor', rest, ends⟩ := later (budget - b.length) (by omega)
      (result ++ shownLive len (cellsFrom t.id (logBytes a).length b))
    refine ⟨cursor', ?_, ?_⟩
    · rw [window, shownLive_append, ← List.append_assoc, ← rest]
      rw [whole] at chunk
      simp only [scanToms, if_neg reached, tom_found holds member, place, chunk,
        setTom_self holds member]
    · unfold Ends at ends ⊢
      rw [window, List.length_append, cellsFrom_length]
      by_cases more : budget - b.length ≤ (cellsOf logs ids).length
      · rw [if_pos more] at ends
        rw [if_pos (by omega)]
        obtain ⟨c, last, same⟩ := ends
        exact ⟨c, by rw [List.getLast?_append, last]; rfl, same⟩
      · rw [if_neg more] at ends
        rw [if_neg (by omega)]
        exact ends

theorem scanToms_fresh (holds : Holds s logs) (some_ : 0 < len) {ids : List Nat}
    (known : ∀ id ∈ ids, id ∈ s.toms.map (·.id)) : GoesOn s logs len cursor ids := by
  induction ids with
  | nil =>
    intro budget positive result
    refine ⟨{}, by simp [scanToms, cellsOf], ?_⟩
    rw [Ends, if_neg (by simp [cellsOf]; omega)]
  | cons id ids ih =>
    obtain ⟨t, member, rfl⟩ := List.mem_map.mp (known id (by simp))
    have later := ih fun i inside => known i (List.mem_cons_of_mem _ inside)
    intro budget positive result
    exact @scanToms_from s logs len cursor holds some_ t member ids [] (logs t.id) rfl false
      (by simp) (by simp) later budget positive result

theorem scanToms_skip {front ids : List Nat} (before : ∀ id ∈ front, id < cursor.tomId)
    (budget : Nat) (result : List (Record × Bytes)) :
    scanToms len cursor (front ++ ids) true budget s result =
      scanToms len cursor ids true budget s result := by
  induction front with
  | nil => rfl
  | cons id front ih =>
    rw [List.cons_append, scanToms, if_pos ⟨rfl, before id (by simp)⟩]
    exact ih fun i member => before i (List.mem_cons_of_mem _ member)

/-- The records before the cursor of a pass: none at its default, else the last one of them is
    the one the cursor is behind. -/
def Stands (cursor : SweepCursor) (done : List Cell) : Prop :=
  (done = [] ∧ cursor = {}) ∨ ∃ c, done.getLast? = some c ∧ cursor = behind c

theorem scanPrefix_holds (holds : Holds s logs) (some_ : 0 < len) {done rest : List Cell}
    (parts : cells s logs = done ++ rest) (stands : Stands cursor done) {budget : Nat}
    (positive : 0 < budget) :
    ∃ cursor', scanPrefix s len budget cursor =
        (s, .ok (shownLive len (rest.take budget), cursor')) ∧ Ends rest budget cursor' := by
  have known : ∀ id ∈ sortedIds s, id ∈ s.toms.map (·.id) := fun id member =>
    (sortedIds_perm s).mem_iff.mp member
  rcases stands with ⟨rfl, rfl⟩ | ⟨c, last, rfl⟩
  · have start : scanToms len {} (sortedIds s) true budget s [] =
        scanToms len {} (sortedIds s) false budget s [] := by
      cases sortedIds s with
      | nil => rfl
      | cons id ids =>
        have below : ¬ id < 0 := Nat.not_lt_zero id
        simp [scanToms]
    obtain ⟨cursor', read, ends⟩ := scanToms_fresh holds some_ known budget positive []
    rw [List.nil_append] at parts
    have all : cellsOf logs (sortedIds s) = rest := parts
    rw [all, List.nil_append] at read
    rw [all] at ends
    exact ⟨cursor', by rw [scanPrefix, ← read]; exact start, ends⟩
  · obtain ⟨before, whole⟩ := List.getLast?_eq_some_iff.mp last
    have member : c ∈ cells s logs := by simp [parts, whole]
    obtain ⟨t, inside, id, front, back, a, b, ids, lower, split, offset, all⟩ :=
      cells_at holds member
    have distinct : (cells s logs).Nodup := List.Nodup.of_map _ holds.places_nodup
    have same : before = cellsOf logs front ++ cellsFrom c.tom 0 a ∧
        rest = cellsFrom c.tom (c.offset + entrySize c.entry) b ++ cellsOf logs back := by
      rw [whole, List.append_assoc, List.singleton_append, all] at parts
      rw [all, List.nodup_append, List.nodup_cons] at distinct
      have absent : c ∉ cellsOf logs front ++ cellsFrom c.tom 0 a := fun there =>
        distinct.2.2 c there c (by simp) rfl
      have equal := (List.append_cons_inj_of_notMem absent distinct.2.1.1).mp parts
      exact ⟨equal.1.symm, equal.2.2.symm⟩
    have ends : c.offset + entrySize c.entry = (logBytes (a ++ [c.entry])).length := by
      simp [offset]
    have later := @scanToms_fresh s logs len (behind c) holds some_ back fun i there =>
      known i (by rw [ids]; simp [there])
    have split' : logs t.id = (a ++ [c.entry]) ++ b := by rw [id, split]; simp
    obtain ⟨cursor', read, stops⟩ := @scanToms_from s logs len (behind c) holds some_ t inside back
      _ b split' true (by simp [id, behind]) (by rw [← ends]; simp [id, behind]) later budget
      positive []
    rw [← ends, id, ← same.2] at read stops
    refine ⟨cursor', ?_, stops⟩
    rw [scanPrefix, show (s.toms.map (·.id)).insertionSort (· ≤ ·) = front ++ c.tom :: back from ids,
      scanToms_skip (show ∀ i ∈ front, i < (behind c).tomId from lower), read, List.nil_append]

end Chunks

section Events

/-- What happens during a pass: records are appended and removed, and `scanPrefix` is called,
    by a sweep at the clock it then reads, or by itself. -/
inductive Event where
  | append (u : UUID) (d : Payload)
  | remove (r : Record)
  | call (maxRecords : Nat) (sweep : Option Int)

/-- A storage with the cursor of a pass and all that its calls have returned. -/
structure Pass where
  storage : Storage
  cursor : SweepCursor := {}
  visits : List (Option Int × Record × Bytes) := []

def event (len : Nat) (p : Pass) : Event → Pass
  | .append u d => { p with storage := (p.storage.append u d.bytes none).1 }
  | .remove r => { p with storage := (p.storage.remove r none).1 }
  | .call maxRecords sweep =>
    match scanPrefix p.storage len maxRecords p.cursor with
    | (s, .error _) => { p with storage := s }
    | (s, .ok (batch, cursor)) =>
      let s := match sweep with
        | none => s
        | some nowMs => (removeExpired nowMs batch [] s).1
      ⟨s, cursor, p.visits ++ batch.map fun x => (sweep, x)⟩

theorem event_sweep (p : Pass) (nowMs : Int) :
    (event kPrefixLen p (.call kSweepBudget (some nowMs))).storage =
        (sweepExpired nowMs p.storage p.cursor []).1 ∧
      (event kPrefixLen p (.call kSweepBudget (some nowMs))).cursor =
        (sweepExpired nowMs p.storage p.cursor []).2.1 := by
  unfold event sweepExpired
  dsimp only
  cases scanPrefix p.storage kPrefixLen kSweepBudget p.cursor with
  | mk s answer =>
    cases answer with
    | error e => exact ⟨rfl, rfl⟩
    | ok found => exact ⟨rfl, rfl⟩

def Admissible (p : Pass) : Event → Prop
  | .append _ _ => True
  | .remove r => ∃ logs, Holds p.storage logs ∧ ∃ c ∈ cells p.storage logs,
      r.tomId = c.tom ∧ r.offset = c.offset ∧ (r.header.deleted ≠ 0 → c.entry.removed = true)
  | .call maxRecords _ => 0 < maxRecords

def Unfinished (len : Nat) : Pass → List Event → Prop
  | _, [] => True
  | p, .call maxRecords sweep :: events =>
    (event len p (.call maxRecords sweep)).cursor ≠ {} ∧
      Unfinished len (event len p (.call maxRecords sweep)) events
  | p, e :: events => Unfinished len (event len p e) events

def removals (events : List Event) : List (Nat × Nat) :=
  events.filterMap fun | .remove r => some (r.tomId, r.offset) | _ => none

variable {s : Storage} {logs : Logs} {len : Nat}

@[simp] theorem shown_mark (c : Cell) : shown len c.mark = shown len c := rfl

theorem shown_place {c d : Cell} (same : shown len c = shown len d) : c.place = d.place := by
  have records := congrArg Prod.fst same
  exact Prod.ext (congrArg Record.tomId records) (congrArg Record.offset records)

theorem cell_ext (holds : Holds s logs) {c d : Cell} (one : c ∈ cells s logs)
    (two : d ∈ cells s logs) (same : c.place = d.place) : c = d :=
  List.inj_on_of_nodup_map holds.places_nodup one two same

def expiredPlaces (len : Nat) (nowMs : Int) (cs : List Cell) : List (Nat × Nat) :=
  (cs.filter fun c => Expired nowMs (c.entry.data.bytes.take len)).map Cell.place

theorem markAt_mem {places : List (Nat × Nat)} {cs : List Cell} {c : Cell}
    (absent : c.place ∉ places) (member : c ∈ cs) : c ∈ markAt places cs :=
  List.mem_map.mpr ⟨c, member, if_neg absent⟩

theorem removeExpired_holds (nowMs : Int) (holds : Holds s logs) {cs : List Cell}
    (inside : ∀ c ∈ cs, c ∈ cells s logs) (distinct : (cs.map Cell.place).Nodup) :
    ∃ s' logs', removeExpired nowMs (cs.map (shown len)) [] s = (s', .ok ()) ∧ Holds s' logs' ∧
      cells s' logs' = markAt (expiredPlaces len nowMs cs) (cells s logs) := by
  induction cs generalizing s logs with
  | nil => exact ⟨s, logs, rfl, holds, (markAt_absent fun c _ => by simp [expiredPlaces]).symm⟩
  | cons c cs ih =>
    obtain ⟨fresh, rest⟩ := List.nodup_cons.mp distinct
    by_cases expired : Expired nowMs (c.entry.data.bytes.take len)
    · obtain ⟨s₁, r, logs₁, removed, holds₁, marked⟩ := remove_holds holds (inside c (by simp))
        (r := (shown len c).1) rfl rfl (fun raised => absurd rfl raised)
      obtain ⟨s', logs', done, holds', all⟩ := @ih s₁ logs₁ holds₁ (fun d member => by
        rw [marked]
        refine markAt_mem ?_ (inside d (List.mem_cons_of_mem c member))
        rw [List.mem_singleton]
        exact fun same => fresh (same ▸ List.mem_map_of_mem member)) rest
      have places : expiredPlaces len nowMs (c :: cs) = c.place :: expiredPlaces len nowMs cs := by
        simp [expiredPlaces, expired]
      refine ⟨s', logs', ?_, holds', ?_⟩
      · have head : Expired nowMs (shown len c).2 := expired
        simp only [List.map_cons, removeExpired]
        rw [if_pos head, List.headD_nil, removed]
        exact done
      · rw [all, marked, markAt_markAt, places]
        rfl
    · obtain ⟨s', logs', done, holds', all⟩ :=
        @ih s logs holds (fun d member => inside d (List.mem_cons_of_mem c member)) rest
      have places : expiredPlaces len nowMs (c :: cs) = expiredPlaces len nowMs cs := by
        simp [expiredPlaces, expired]
      refine ⟨s', logs', ?_, holds', by rw [all, places]⟩
      have head : ¬ Expired nowMs (shown len c).2 := expired
      simp only [List.map_cons, removeExpired]
      rw [if_neg head]
      exact done

end Events

section Progress
variable {len : Nat}

/-- A cell is removed when it was so at the start, or was removed between the calls, or when a
    sweep was given it after it had expired. -/
def RemovedFor (len : Nat) (start : List Cell) (gone : List (Nat × Nat))
    (visits : List (Option Int × Record × Bytes)) (c : Cell) : Prop :=
  (∃ d ∈ start, d.place = c.place ∧ d.entry.removed = true) ∨ c.place ∈ gone ∨
    ∃ nowMs, (some nowMs, shown len c) ∈ visits ∧ Expired nowMs (c.entry.data.bytes.take len)

/-- What holds of a pass that started on the cells `start`: those that were inspected are the
    ones of `done`, and the places of `gone` were removed between the calls. -/
structure Progress (len : Nat) (start : List Cell) (gone : List (Nat × Nat)) (p : Pass)
    (done rest : List Cell) : Prop where
  holds : ∃ logs, Holds p.storage logs ∧ cells p.storage logs = done ++ rest
  visited : (p.visits.map Prod.snd).Sublist (done.map (shown len))
  complete : ∀ c ∈ done, c.alive = true → shown len c ∈ p.visits.map Prod.snd
  kept : start.map Cell.mark <+: (done ++ rest).map Cell.mark
  known : ∀ place ∈ gone, place ∈ (done ++ rest).map Cell.place
  flags : ∀ c ∈ done ++ rest, c.entry.removed = true ↔ RemovedFor len start gone p.visits c

theorem markAt_cases {places : List (Nat × Nat)} {cs : List Cell} {c : Cell}
    (member : c ∈ markAt places cs) : ∃ d ∈ cs, d.place = c.place ∧ d.mark = c.mark ∧
      (c.entry.removed = true ↔ d.entry.removed = true ∨ c.place ∈ places) := by
  obtain ⟨d, inside, rfl⟩ := List.mem_map.mp member
  by_cases hit : d.place ∈ places
  · rw [if_pos hit]
    exact ⟨d, inside, rfl, rfl, iff_of_true rfl (Or.inr hit)⟩
  · rw [if_neg hit]
    exact ⟨d, inside, rfl, rfl, (or_iff_left hit).symm⟩

theorem markAt_marks (places : List (Nat × Nat)) (cs : List Cell) :
    (markAt places cs).map Cell.mark = cs.map Cell.mark := by
  rw [markAt, List.map_map]
  apply List.map_congr_left
  intro c _
  simp only [Function.comp_apply]
  split <;> rfl

theorem shown_of_mark {c d : Cell} (same : d.mark = c.mark) : shown len d = shown len c := by
  rw [← shown_mark d, same, shown_mark]

theorem marks_shown {cs ds : List Cell} (same : cs.map Cell.mark = ds.map Cell.mark) :
    cs.map (shown len) = ds.map (shown len) := by
  have all := congrArg (List.map (shown len)) same
  simpa only [List.map_map, Function.comp_def, shown_mark] using all

theorem Progress.distinct {start : List Cell} {gone : List (Nat × Nat)} {p : Pass}
    {done rest : List Cell} (progress : Progress len start gone p done rest) :
    ((done ++ rest).map Cell.place).Nodup := by
  obtain ⟨logs, holds, parts⟩ := progress.holds
  rw [← parts]
  exact holds.places_nodup

theorem start_place {start cs : List Cell} (kept : start.map Cell.mark <+: cs.map Cell.mark)
    {d : Cell} (member : d ∈ start) : d.place ∈ cs.map Cell.place := by
  obtain ⟨c, inside, same⟩ := List.mem_map.mp (kept.subset (List.mem_map_of_mem member))
  exact List.mem_map.mpr ⟨c, inside, by rw [← mark_place c, same, mark_place]⟩

theorem visit_place {start : List Cell} {gone : List (Nat × Nat)} {p : Pass} {done rest : List Cell}
    (progress : Progress len start gone p done rest) {clock : Option Int} {c : Cell}
    (visit : (clock, shown len c) ∈ p.visits) : c.place ∈ done.map Cell.place := by
  have inside : shown len c ∈ p.visits.map Prod.snd := List.mem_map.mpr ⟨_, visit, rfl⟩
  obtain ⟨d, member, same⟩ := List.mem_map.mp (progress.visited.subset inside)
  exact List.mem_map.mpr ⟨d, member, shown_place same⟩

theorem append_progress {start : List Cell} {gone : List (Nat × Nat)} {p : Pass}
    {done rest : List Cell} (progress : Progress len start gone p done rest) (u : UUID)
    (d : Payload) :
    ∃ c, Progress len start gone (event len p (.append u d)) done (rest ++ [c]) := by
  obtain ⟨logs, holds, parts⟩ := progress.holds
  obtain ⟨s', c, logs', appended, entry, holds', all⟩ := append_holds holds u d
  rw [parts, List.append_assoc] at all
  have storage : (event len p (.append u d)).storage = s' := by simp [event, appended]
  have fresh : c.place ∉ (done ++ rest).map Cell.place := by
    have distinct := holds'.places_nodup
    rw [all, ← List.append_assoc, List.map_append, List.nodup_append] at distinct
    intro old
    exact distinct.2.2 c.place old c.place (by simp) rfl
  refine ⟨c, ⟨logs', by rw [storage]; exact holds', by rw [storage]; exact all⟩, progress.visited,
    progress.complete, ?_, ?_, ?_⟩
  · rw [← List.append_assoc, List.map_append]
    exact progress.kept.trans (List.prefix_append _ _)
  · intro place member
    rw [← List.append_assoc, List.map_append]
    exact List.mem_append_left _ (progress.known place member)
  · intro x member
    rw [← List.append_assoc, List.mem_append, List.mem_singleton] at member
    rcases member with old | rfl
    · exact progress.flags x old
    · refine iff_of_false (by simp [entry]) ?_
      rintro (⟨d, first, same, -⟩ | removed | ⟨nowMs, visit, -⟩)
      · exact fresh (same ▸ start_place progress.kept first)
      · exact fresh (progress.known _ removed)
      · have there := visit_place progress visit
        rw [List.map_append] at fresh
        exact fresh (List.mem_append_left _ there)

theorem marked_progress {start : List Cell} {gone : List (Nat × Nat)} {p p' : Pass}
    {done rest : List Cell} (progress : Progress len start gone p done rest)
    {place : Nat × Nat} (there : place ∈ (done ++ rest).map Cell.place)
    (visits : p'.visits = p.visits)
    (holds : ∃ logs, Holds p'.storage logs ∧
      cells p'.storage logs = markAt [place] (done ++ rest)) :
    Progress len start (gone ++ [place]) p' (markAt [place] done) (markAt [place] rest) := by
  obtain ⟨logs, holds', all⟩ := holds
  refine ⟨⟨logs, holds', by rw [all, markAt_append]⟩, ?_, ?_, ?_, ?_, ?_⟩
  · rw [visits, marks_shown (markAt_marks [place] done)]
    exact progress.visited
  · intro c member alive
    obtain ⟨d, inside, -, same, removed⟩ := markAt_cases member
    rw [visits, ← shown_of_mark same]
    refine progress.complete d inside ?_
    simp only [Cell.alive, Bool.not_eq_true', Bool.eq_false_iff] at alive ⊢
    exact fun gone_ => alive (removed.mpr (Or.inl gone_))
  · rw [← markAt_append, markAt_marks]
    exact progress.kept
  · intro other member
    rw [← markAt_append, markAt_places]
    rcases List.mem_append.mp member with old | new
    · exact progress.known other old
    · rw [List.mem_singleton.mp new]
      exact there
  · intro c member
    rw [← markAt_append] at member
    obtain ⟨d, inside, place_, same, removed⟩ := markAt_cases member
    have data := congrArg (fun x : Cell => x.entry.data) same
    change d.entry.data = c.entry.data at data
    rw [removed, progress.flags d inside]
    unfold RemovedFor
    rw [place_, shown_of_mark same, data, visits, List.mem_append, or_assoc, or_assoc, or_assoc]
    exact or_congr_right (or_congr_right or_comm)

theorem event_call {p : Pass} {maxRecords : Nat} {batch : List (Record × Bytes)}
    {cursor : SweepCursor}
    (read : scanPrefix p.storage len maxRecords p.cursor = (p.storage, .ok (batch, cursor)))
    (sweep : Option Int) :
    event len p (.call maxRecords sweep) =
      ⟨match sweep with
        | none => p.storage
        | some nowMs => (removeExpired nowMs batch [] p.storage).1,
        cursor, p.visits ++ batch.map fun x => (sweep, x)⟩ := by
  simp only [event, read]

def sweptPlaces (len : Nat) (sweep : Option Int) (live : List Cell) : List (Nat × Nat) :=
  match sweep with
  | none => []
  | some nowMs => expiredPlaces len nowMs live

theorem swept_holds {s : Storage} {logs : Logs} (holds : Holds s logs) {live : List Cell}
    (inside : ∀ c ∈ live, c ∈ cells s logs) (distinct : (live.map Cell.place).Nodup)
    (sweep : Option Int) :
    ∃ logs', Holds (match sweep with
        | none => s
        | some nowMs => (removeExpired nowMs (live.map (shown len)) [] s).1) logs' ∧
      cells (match sweep with
        | none => s
        | some nowMs => (removeExpired nowMs (live.map (shown len)) [] s).1) logs' =
          markAt (sweptPlaces len sweep live) (cells s logs) := by
  cases sweep with
  | none => exact ⟨logs, holds, (markAt_absent fun c _ => by simp [sweptPlaces]).symm⟩
  | some nowMs =>
    obtain ⟨s', logs', removed, holds', all⟩ := removeExpired_holds nowMs holds inside distinct
    refine ⟨logs', ?_, ?_⟩
    · dsimp only
      rw [removed]
      exact holds'
    · dsimp only
      rw [removed]
      exact all

theorem mem_sweptPlaces {all live : List Cell} (distinct : (all.map Cell.place).Nodup)
    (inside : ∀ c ∈ live, c ∈ all) (sweep : Option Int) {c : Cell} (member : c ∈ all) :
    c.place ∈ sweptPlaces len sweep live ↔
      ∃ nowMs, sweep = some nowMs ∧ c ∈ live ∧ Expired nowMs (c.entry.data.bytes.take len) := by
  cases sweep with
  | none => simp [sweptPlaces]
  | some nowMs =>
    simp only [sweptPlaces, expiredPlaces, List.mem_map, List.mem_filter, decide_eq_true_eq,
      Option.some.injEq, exists_eq_left']
    constructor
    · rintro ⟨d, ⟨there, expired⟩, same⟩
      have equal := List.inj_on_of_nodup_map distinct (inside d there) member same
      exact ⟨equal ▸ there, equal ▸ expired⟩
    · rintro ⟨there, expired⟩
      exact ⟨c, ⟨there, expired⟩, rfl⟩

theorem stands_mark {cursor : SweepCursor} {done : List Cell} (stands : Stands cursor done)
    (places : List (Nat × Nat)) : Stands cursor (markAt places done) := by
  rcases stands with ⟨rfl, default_⟩ | ⟨c, last, same⟩
  · exact Or.inl ⟨rfl, default_⟩
  · refine Or.inr ⟨if c.place ∈ places then c.mark else c, ?_, ?_⟩
    · rw [markAt, List.getLast?_map, last]
      rfl
    · rw [same]
      split <;> rfl

theorem stands_call {cursor : SweepCursor} {done rest : List Cell} {n : Nat}
    (ends : Ends rest n cursor) :
    if cursor = {} then rest.length < n else n ≤ rest.length ∧ Stands cursor (done ++ rest.take n) := by
  unfold Ends at ends
  by_cases full : n ≤ rest.length
  · rw [if_pos full] at ends
    obtain ⟨c, last, rfl⟩ := ends
    have inside : behind c ≠ {} := by
      intro default_
      have offset := congrArg SweepCursor.offset default_
      have size := entrySize_large c.entry
      simp only [behind] at offset
      omega
    rw [if_neg inside]
    exact ⟨full, Or.inr ⟨c, by rw [List.getLast?_append, last]; rfl, rfl⟩⟩
  · rw [if_neg full] at ends
    rw [if_pos ends]
    omega

theorem call_progress (some_ : 0 < len) {start : List Cell} {gone : List (Nat × Nat)} {p : Pass}
    {done rest : List Cell} (progress : Progress len start gone p done rest)
    (stands : Stands p.cursor done) {n : Nat} (positive : 0 < n) (sweep : Option Int) :
    ∃ places, Progress len start gone (event len p (.call n sweep))
        (markAt places (done ++ rest.take n)) (markAt places (rest.drop n)) ∧
      (event len p (.call n sweep)).visits =
        p.visits ++ (shownLive len (rest.take n)).map (fun x => (sweep, x)) ∧
      Ends rest n (event len p (.call n sweep)).cursor := by
  obtain ⟨logs, holds, parts⟩ := progress.holds
  obtain ⟨cursor, read, ends⟩ := scanPrefix_holds holds some_ parts stands positive
  let live := (rest.take n).filter Cell.alive
  have inside : ∀ c ∈ live, c ∈ done ++ rest := fun c member =>
    List.mem_append_right _ (List.mem_of_mem_take (List.mem_filter.mp member).1)
  have distinct := progress.distinct
  have liveDistinct : (live.map Cell.place).Nodup := by
    have part : live.Sublist (done ++ rest) :=
      (List.filter_sublist.trans (List.take_sublist n rest)).trans (List.sublist_append_right _ _)
    exact distinct.sublist (part.map Cell.place)
  obtain ⟨logs', holds', all⟩ :=
    @swept_holds len p.storage logs holds live (by rw [parts]; exact inside) liveDistinct sweep
  let places := sweptPlaces len sweep live
  have after := event_call read sweep
  have whole : (done ++ rest.take n) ++ rest.drop n = done ++ rest := by simp
  have visits : (event len p (.call n sweep)).visits =
      p.visits ++ (shownLive len (rest.take n)).map (fun x => (sweep, x)) := by
    rw [after]
  have seen : (event len p (.call n sweep)).visits.map Prod.snd =
      p.visits.map Prod.snd ++ shownLive len (rest.take n) := by
    simp [visits, List.map_map, Function.comp_def]
  refine ⟨places, ⟨⟨logs', ?_, ?_⟩, ?_, ?_, ?_, ?_, ?_⟩, visits, by rw [after]; exact ends⟩
  · rw [after]
    exact holds'
  · rw [after, ← markAt_append, whole, ← parts]
    exact all
  · rw [seen, marks_shown (markAt_marks places _), List.map_append]
    exact progress.visited.append (List.filter_sublist.map _)
  · intro c member alive
    obtain ⟨d, there, -, same, removed⟩ := markAt_cases member
    have alive' : d.alive = true := by
      simp only [Cell.alive, Bool.not_eq_true', Bool.eq_false_iff] at alive ⊢
      exact fun gone_ => alive (removed.mpr (Or.inl gone_))
    rw [seen, ← shown_of_mark same]
    rcases List.mem_append.mp there with old | new
    · exact List.mem_append_left _ (progress.complete d old alive')
    · exact List.mem_append_right _ (List.mem_map_of_mem (List.mem_filter.mpr ⟨new, alive'⟩))
  · rw [← markAt_append, whole, markAt_marks]
    exact progress.kept
  · intro place member
    rw [← markAt_append, whole, markAt_places]
    exact progress.known place member
  · intro c member
    rw [← markAt_append, whole] at member
    obtain ⟨d, there, place, same, removed⟩ := markAt_cases member
    have data := congrArg (fun x : Cell => x.entry.data) same
    change d.entry.data = c.entry.data at data
    have fresh : shown len c ∈ shownLive len (rest.take n) ↔ d ∈ live := by
      rw [← shown_of_mark same]
      constructor
      · intro visit
        obtain ⟨w, now, equal⟩ := List.mem_map.mp visit
        have one := List.inj_on_of_nodup_map distinct (inside w now) there (shown_place equal)
        exact one ▸ now
      · exact fun now => List.mem_map_of_mem now
    rw [removed, progress.flags d there, ← place, mem_sweptPlaces distinct inside sweep there]
    have visit : ∀ nowMs, (some nowMs, shown len c) ∈ (event len p (.call n sweep)).visits ↔
        (some nowMs, shown len d) ∈ p.visits ∨ sweep = some nowMs ∧ d ∈ live := by
      intro nowMs
      rw [visits, List.mem_append, ← fresh, ← shown_of_mark same]
      simp only [List.mem_map, Prod.mk.injEq]
      constructor
      · rintro (old | ⟨x, now, clock, rfl⟩)
        · exact Or.inl old
        · exact Or.inr ⟨clock, now⟩
      · rintro (old | ⟨clock, now⟩)
        · exact Or.inl old
        · exact Or.inr ⟨_, now, clock, rfl⟩
    unfold RemovedFor
    simp only [visit, or_and_right, exists_or, place, data, and_assoc, or_assoc]

end Progress

section Passes
variable {len : Nat}

def calls (events : List Event) : Nat :=
  (events.filter fun | .call _ _ => true | _ => false).length

def NoAppends (events : List Event) : Prop := ∀ u d, Event.append u d ∉ events

theorem event_progress (some_ : 0 < len) {start : List Cell} {gone : List (Nat × Nat)} {p : Pass}
    {done rest : List Cell} (progress : Progress len start gone p done rest)
    (stands : Stands p.cursor done) {e : Event} (admissible : Admissible p e) :
    ∃ done' rest', Progress len start (gone ++ removals [e]) (event len p e) done' rest' ∧
      ((∀ n sweep, e = .call n sweep → (event len p e).cursor ≠ {}) →
        Stands (event len p e).cursor done' ∧
          ((∀ u d, e ≠ .append u d) → calls [e] + rest'.length ≤ rest.length)) ∧
      (∀ n sweep, e = .call n sweep → (event len p e).cursor = {} → rest' = []) := by
  cases e with
  | append u d =>
    obtain ⟨c, after⟩ := append_progress progress u d
    refine ⟨done, rest ++ [c], ?_, ?_, ?_⟩
    · simpa [removals] using after
    · intro _
      exact ⟨stands, fun none_ => absurd rfl (none_ u d)⟩
    · intro n sweep call
      cases call
  | remove r =>
    obtain ⟨logs, holds, parts⟩ := progress.holds
    obtain ⟨logs', holds', c, member, tom, place, flag⟩ := admissible
    rw [holds'.cells_unique holds] at member
    obtain ⟨s', r', logs₁, removed, after, marked⟩ := remove_holds holds member tom place flag
    have storage : (event len p (.remove r)).storage = s' := by simp [event, removed]
    have here : c.place = (r.tomId, r.offset) := by rw [tom, place]; rfl
    rw [parts] at member marked
    have all : Progress len start (gone ++ [c.place]) (event len p (.remove r)) _ _ :=
      marked_progress progress (List.mem_map_of_mem member) rfl
        ⟨logs₁, by rw [storage]; exact ⟨after, marked⟩⟩
    refine ⟨markAt [c.place] done, markAt [c.place] rest, ?_, ?_, ?_⟩
    · simpa [removals, here] using all
    · intro _
      exact ⟨stands_mark stands _, fun _ => by simp [calls]⟩
    · intro n sweep call
      cases call
  | call n sweep =>
    obtain ⟨places, after, -, ends⟩ := call_progress some_ progress stands admissible sweep
    have moved := @stands_call _ done rest n ends
    refine ⟨markAt places (done ++ rest.take n), markAt places (rest.drop n), ?_, ?_, ?_⟩
    · simpa [removals] using after
    · intro goes
      rw [if_neg (goes n sweep rfl)] at moved
      refine ⟨stands_mark moved.2 places, fun _ => ?_⟩
      have positive : 0 < n := admissible
      have within := moved.1
      simp only [calls, markAt_length, List.length_drop, List.filter_cons_of_pos,
        List.filter_nil, List.length_singleton]
      omega
    · intro m other _ default_
      rw [if_pos default_] at moved
      have none_ : rest.drop n = [] := List.drop_eq_nil_of_le (by omega)
      rw [none_]
      rfl

theorem unfinished_cons {p : Pass} {e : Event} {events : List Event}
    (unfinished : Unfinished len p (e :: events)) :
    (∀ n sweep, e = .call n sweep → (event len p e).cursor ≠ {}) ∧
      Unfinished len (event len p e) events := by
  cases e with
  | call n sweep =>
    refine ⟨?_, unfinished.2⟩
    intro m other same
    exact unfinished.1
  | append u d =>
    refine ⟨?_, unfinished⟩
    intro n sweep call
    cases call
  | remove r =>
    refine ⟨?_, unfinished⟩
    intro n sweep call
    cases call

theorem removals_cons (e : Event) (events : List Event) :
    removals (e :: events) = removals [e] ++ removals events := by
  rw [← List.singleton_append, removals, List.filterMap_append]
  rfl

theorem calls_cons (e : Event) (events : List Event) :
    calls (e :: events) = calls [e] + calls events := by
  rw [← List.singleton_append, calls, List.filter_append, List.length_append]
  rfl

theorem run_progress (some_ : 0 < len) {start : List Cell} {events : List Event}
    {gone : List (Nat × Nat)} {p : Pass} {done rest : List Cell}
    (progress : Progress len start gone p done rest) (stands : Stands p.cursor done)
    (admissible : Meets (event len) Admissible p events) (unfinished : Unfinished len p events) :
    ∃ done' rest', Progress len start (gone ++ removals events) (events.foldl (event len) p)
        done' rest' ∧ Stands (events.foldl (event len) p).cursor done' ∧
      (NoAppends events → calls events + rest'.length ≤ rest.length) := by
  induction events generalizing gone p done rest with
  | nil => exact ⟨done, rest, by simpa [removals] using progress, stands, fun _ => by simp [calls]⟩
  | cons e events ih =>
    obtain ⟨first, later⟩ := unfinished_cons unfinished
    obtain ⟨done₁, rest₁, progress₁, goes, -⟩ := event_progress some_ progress stands admissible.1
    obtain ⟨stands₁, count₁⟩ := goes first
    obtain ⟨done', rest', progress', stands', count'⟩ :=
      ih progress₁ stands₁ admissible.2 later
    refine ⟨done', rest', ?_, stands', ?_⟩
    · rw [removals_cons, ← List.append_assoc]
      exact progress'
    · intro none_
      have here := count₁ fun u d same => none_ u d (by simp [same])
      have rest_ := count' fun u d member => none_ u d (List.mem_cons_of_mem e member)
      rw [calls_cons]
      omega

def begin (s : Storage) : Pass := { storage := s }

theorem begin_progress {s : Storage} {logs : Logs} (holds : Holds s logs) :
    Progress len (cells s logs) [] (begin s) [] (cells s logs) where
  holds := ⟨logs, holds, rfl⟩
  visited := List.Sublist.refl _
  complete := fun c member => by cases member
  kept := List.prefix_rfl
  known := fun place member => by cases member
  flags := by
    intro c member
    constructor
    · intro removed
      exact Or.inl ⟨c, member, rfl, removed⟩
    · rintro (⟨d, inside, same, removed⟩ | none_ | ⟨nowMs, visit, -⟩)
      · rw [← cell_ext holds inside member same]
        exact removed
      · cases none_
      · cases visit

/-- What a completed pass over `s` has visited. -/
structure Complete (len : Nat) (start : List Cell) (events : List Event) (p : Pass) (all : List Cell) :
    Prop where
  kept : start.map Cell.mark <+: all.map Cell.mark
  once : (p.visits.map fun v => (v.2.1.tomId, v.2.1.offset)).Nodup
  recorded : ∀ v ∈ p.visits, ∃ c ∈ all, v.2 = shown len c
  live : ∀ c ∈ all, c.alive = true → shown len c ∈ p.visits.map Prod.snd
  flags : ∀ c ∈ all, c.entry.removed = true ↔ RemovedFor len start (removals events) p.visits c

theorem Progress.complete_pass {start : List Cell} {gone : List (Nat × Nat)} {p : Pass}
    {done : List Cell} (progress : Progress len start gone p done []) {events : List Event}
    (same : gone = removals events) : Complete len start events p done where
  kept := by simpa using progress.kept
  once := by
    have places : p.visits.map (fun v => (v.2.1.tomId, v.2.1.offset)) =
        (p.visits.map Prod.snd).map fun v => (v.1.tomId, v.1.offset) := by
      rw [List.map_map]
      rfl
    have cells_ : (done.map (shown len)).map (fun v => (v.1.tomId, v.1.offset)) =
        done.map Cell.place := by
      rw [List.map_map]
      rfl
    have distinct := progress.distinct
    rw [List.append_nil, ← cells_] at distinct
    rw [places]
    exact distinct.sublist (progress.visited.map _)
  recorded := by
    intro v member
    obtain ⟨c, inside, equal⟩ :=
      List.mem_map.mp (progress.visited.subset (List.mem_map_of_mem member))
    exact ⟨c, inside, equal.symm⟩
  live := progress.complete
  flags := by
    intro c member
    rw [progress.flags c (by simpa using member), same]

theorem visit_called {events : List Event} {p : Pass} {v : Option Int × Record × Bytes}
    (visit : v ∈ (events.foldl (event len) p).visits) :
    v ∈ p.visits ∨ ∃ n, .call n v.1 ∈ events := by
  induction events generalizing p with
  | nil => exact Or.inl visit
  | cons e events ih =>
    rcases ih visit with first | ⟨n, later⟩
    · cases e with
      | append u d => exact Or.inl first
      | remove r => exact Or.inl first
      | call n sweep =>
        simp only [event] at first
        split at first
        · exact Or.inl first
        · rcases List.mem_append.mp first with old | new
          · exact Or.inl old
          · obtain ⟨x, -, rfl⟩ := List.mem_map.mp new
            exact Or.inr ⟨n, by simp⟩
    · exact Or.inr ⟨n, List.mem_cons_of_mem e later⟩

theorem take_getD {bs : Bytes} {n i : Nat} (inside : i < n) : (bs.take n).getD i 0 = bs.getD i 0 := by
  simp [List.getD_eq_getElem?_getD, List.getElem?_take_of_lt inside]

theorem expired_begins (nowMs : Int) (data : Bytes) :
    Expired nowMs (data.take kPrefixLen) ↔ Expired nowMs data := by
  have size : kPrefixLen ≤ (data.take kPrefixLen).length ↔ kPrefixLen ≤ data.length := by
    rw [List.length_take]
    omega
  have slot : slice kExpirationOffset 8 (data.take kPrefixLen) = slice kExpirationOffset 8 data := by
    rw [slice, slice, List.drop_take, List.take_take]
    rfl
  unfold Expired expirationAt
  rw [size, slot, take_getD (by decide)]

def sweepStep : Storage × SweepCursor → Event → Storage × SweepCursor
  | (s, cursor), .append u d => ((s.append u d.bytes none).1, cursor)
  | (s, cursor), .remove r => ((s.remove r none).1, cursor)
  | (s, cursor), .call _ none => (s, cursor)
  | (s, cursor), .call _ (some nowMs) =>
    ((sweepExpired nowMs s cursor []).1, (sweepExpired nowMs s cursor []).2.1)

def Sweeps (events : List Event) : Prop :=
  ∀ n sweep, .call n sweep ∈ events → n = kSweepBudget ∧ ∃ nowMs, sweep = some nowMs

theorem sweeps_fold {events : List Event} (sweeps : Sweeps events) (p : Pass) :
    events.foldl sweepStep (p.storage, p.cursor) =
      ((events.foldl (event kPrefixLen) p).storage, (events.foldl (event kPrefixLen) p).cursor) := by
  induction events generalizing p with
  | nil => rfl
  | cons e events ih =>
    have later := ih (fun n sweep member => sweeps n sweep (List.mem_cons_of_mem e member))
      (event kPrefixLen p e)
    rw [List.foldl_cons, List.foldl_cons, ← later]
    cases e with
    | append u d => rfl
    | remove r => rfl
    | call n sweep =>
      obtain ⟨rfl, nowMs, rfl⟩ := sweeps n sweep (by simp)
      have same := event_sweep p nowMs
      rw [same.1, same.2]
      rfl

def after (len : Nat) (s : Storage) (events : List Event) : Pass :=
  events.foldl (event len) (begin s)

/-- A run from the start of a pass that has not ended it; removals are of records of the storage. -/
structure Ongoing (len : Nat) (s : Storage) (events : List Event) : Prop where
  admissible : Meets (event len) Admissible (begin s) events
  unfinished : Unfinished len (begin s) events

variable {s : Storage} {logs : Logs} {events : List Event}

theorem ongoing_progress (some_ : 0 < len) (holds : Holds s logs) (ongoing : Ongoing len s events) :
    ∃ done rest, Progress len (cells s logs) (removals events) (after len s events) done rest ∧
      Stands (after len s events).cursor done := by
  obtain ⟨done, rest, progress, stands, -⟩ := run_progress some_ (begin_progress holds)
    (Or.inl ⟨rfl, rfl⟩) ongoing.admissible ongoing.unfinished
  rw [List.nil_append] at progress
  exact ⟨done, rest, progress, stands⟩

theorem after_snoc (events : List Event) (e : Event) :
    after len s (events ++ [e]) = event len (after len s events) e := by
  simp [after]

theorem pass_ends (some_ : 0 < len) (holds : Holds s logs) (ongoing : Ongoing len s events)
    {n : Nat} (positive : 0 < n) (sweep : Option Int)
    (ended : (after len s (events ++ [.call n sweep])).cursor = {}) :
    ∃ logs', Holds (after len s (events ++ [.call n sweep])).storage logs' ∧
      Complete len (cells s logs) events (after len s (events ++ [.call n sweep]))
        (cells (after len s (events ++ [.call n sweep])).storage logs') := by
  obtain ⟨done, rest, progress, stands⟩ := ongoing_progress some_ holds ongoing
  obtain ⟨done', rest', progress', -, finished⟩ :=
    event_progress some_ progress stands (e := .call n sweep) positive
  rw [after_snoc] at ended ⊢
  obtain rfl := finished n sweep rfl ended
  obtain ⟨logs', holds', parts⟩ := progress'.holds
  rw [List.append_nil] at parts
  refine ⟨logs', holds', ?_⟩
  rw [parts]
  exact progress'.complete_pass (List.append_nil _)

theorem call_bounded (some_ : 0 < len) (holds : Holds s logs) (ongoing : Ongoing len s events)
    {n : Nat} (positive : 0 < n) (sweep : Option Int) :
    ∃ logs' window, Holds (after len s events).storage logs' ∧
      window <:+: cells (after len s events).storage logs' ∧ window.length ≤ n ∧
      (after len s (events ++ [.call n sweep])).visits =
        (after len s events).visits ++ (shownLive len window).map fun x => (sweep, x) := by
  obtain ⟨done, rest, progress, stands⟩ := ongoing_progress some_ holds ongoing
  obtain ⟨logs', holds', parts⟩ := progress.holds
  obtain ⟨places, -, visits, -⟩ := call_progress some_ progress stands positive sweep
  refine ⟨logs', rest.take n, holds', ?_, List.length_take_le n rest, ?_⟩
  · rw [parts]
    exact ⟨done, rest.drop n, by simp⟩
  · rw [after_snoc]
    exact visits

theorem pass_bounded (some_ : 0 < len) (holds : Holds s logs) (ongoing : Ongoing len s events)
    {more : List Event} (admissible : Meets (event len) Admissible (after len s events) more)
    (unfinished : Unfinished len (after len s events) more) (none_ : NoAppends more) :
    ∃ logs', Holds (after len s events).storage logs' ∧
      calls more ≤ (cells (after len s events).storage logs').length := by
  obtain ⟨done, rest, progress, stands⟩ := ongoing_progress some_ holds ongoing
  obtain ⟨done', rest', -, -, count⟩ := run_progress some_ progress stands admissible unfinished
  obtain ⟨logs', holds', parts⟩ := progress.holds
  refine ⟨logs', holds', ?_⟩
  have bound := count none_
  rw [parts, List.length_append]
  omega

theorem sweep_exact {start all : List Cell} {p : Pass} (complete : Complete len start events p all)
    (clock : ∀ v ∈ p.visits, ∃ nowMs, v.1 = some nowMs) {c : Cell} (member : c ∈ all)
    (before : ¬ ∃ d ∈ start, d.place = c.place ∧ d.entry.removed = true)
    (between : c.place ∉ removals events) :
    ∃ nowMs, (some nowMs, shown len c) ∈ p.visits ∧
      (c.entry.removed = true ↔ Expired nowMs (c.entry.data.bytes.take len)) := by
  have flags := complete.flags c member
  by_cases removed : c.entry.removed = true
  · rcases flags.mp removed with old | gone_ | ⟨nowMs, visit, expired⟩
    · exact absurd old before
    · exact absurd gone_ between
    · exact ⟨nowMs, visit, iff_of_true removed expired⟩
  · obtain ⟨⟨t, x⟩, visit, rfl⟩ :=
      List.mem_map.mp (complete.live c member (by simp [Cell.alive, removed]))
    obtain ⟨nowMs, rfl⟩ := clock _ visit
    refine ⟨nowMs, visit, iff_of_false removed fun expired => ?_⟩
    exact removed (flags.mpr (Or.inr (Or.inr ⟨nowMs, visit, expired⟩)))

/-- Passes over a storage of any number of toms. (1) A pass, with appends and removals between
    its calls, visits every record that is live when it ends, none twice, and each with its first
    bytes. (2) No call inspects more records than it may. (3) Without further appends a pass that
    goes on makes at most as many calls as there are records. (4) A pass of `sweepExpired` visits
    every record that nothing else removes and removes exactly those that had expired by then. -/
theorem sweep_complete (some_ : 0 < len) (holds : Holds s logs) (ongoing : Ongoing len s events) :
    (∀ n sweep, 0 < n → (after len s (events ++ [.call n sweep])).cursor = {} →
      ∃ logs', Holds (after len s (events ++ [.call n sweep])).storage logs' ∧
        Complete len (cells s logs) events (after len s (events ++ [.call n sweep]))
          (cells (after len s (events ++ [.call n sweep])).storage logs')) ∧
    (∀ n sweep, 0 < n → ∃ logs' window, Holds (after len s events).storage logs' ∧
      window <:+: cells (after len s events).storage logs' ∧ window.length ≤ n ∧
      (after len s (events ++ [.call n sweep])).visits =
        (after len s events).visits ++ (shownLive len window).map fun x => (sweep, x)) ∧
    (∀ more, Meets (event len) Admissible (after len s events) more →
      Unfinished len (after len s events) more → NoAppends more →
      ∃ logs', Holds (after len s events).storage logs' ∧
        calls more ≤ (cells (after len s events).storage logs').length) ∧
    (len = kPrefixLen → Sweeps events → ∀ nowMs,
      let p := after len s (events ++ [.call kSweepBudget (some nowMs)])
      p.cursor = {} →
        (events ++ [Event.call kSweepBudget (some nowMs)]).foldl sweepStep
            (s, ({} : SweepCursor)) = (p.storage, {}) ∧
        ∃ logs', Holds p.storage logs' ∧ ∀ c ∈ cells p.storage logs',
          (¬ ∃ d ∈ cells s logs, d.place = c.place ∧ d.entry.removed = true) →
          c.place ∉ removals events →
          ∃ clock, (some clock, shown len c) ∈ p.visits ∧
            (c.entry.removed = true ↔ kPrefixLen ≤ c.entry.data.bytes.length ∧
              c.entry.data.bytes.getD kMagicOffset 0 = 2 ∧
              expirationAt c.entry.data.bytes ≠ 0 ∧ expirationAt c.entry.data.bytes ≤ clock)) := by
  refine ⟨?_, ?_, ?_, ?_⟩
  · intro n sweep positive ended
    exact pass_ends some_ holds ongoing positive sweep ended
  · intro n sweep positive
    exact call_bounded some_ holds ongoing positive sweep
  · intro more admissible unfinished none_
    exact pass_bounded some_ holds ongoing admissible unfinished none_
  · intro prefix_ sweeps nowMs p ended
    subst prefix_
    obtain ⟨logs', holds', complete⟩ := pass_ends some_ holds ongoing (by decide) (some nowMs) ended
    have all : Sweeps (events ++ [.call kSweepBudget (some nowMs)]) := by
      intro n sweep member
      rcases List.mem_append.mp member with old | last
      · exact sweeps n sweep old
      · cases List.mem_singleton.mp last
        exact ⟨rfl, nowMs, rfl⟩
    have clock : ∀ v ∈ p.visits, ∃ t, v.1 = some t := by
      intro v visit
      rcases visit_called visit with none_ | ⟨n, called⟩
      · cases none_
      · exact (all n v.1 called).2
    refine ⟨?_, logs', holds', ?_⟩
    · have same := sweeps_fold all (begin s)
      exact same.trans (congrArg (Prod.mk p.storage) ended)
    · intro c member before between
      obtain ⟨t, visit, exact_⟩ := sweep_exact complete clock member before between
      exact ⟨t, visit, exact_.trans (expired_begins t c.entry.data.bytes)⟩

end Passes

def twoLogs : Logs := fun id => if id = 3 ∨ id = 5 then [⟨id, ⟨[7], by decide, by decide⟩, false⟩] else []

def twoToms : Storage where
  currentTomId := 5
  toms := [Tom.create 5 (logBytes (twoLogs 5)), Tom.create 3 (logBytes (twoLogs 3))]
  index := fun _ => none

theorem twoToms_holds : Holds twoToms twoLogs where
  distinct := by decide
  intact := by
    intro t member
    rcases List.mem_cons.mp member with rfl | later
    · exact ⟨rfl, rfl, rfl, by decide⟩
    · rw [List.mem_singleton.mp later]
      exact ⟨rfl, rfl, rfl, by decide⟩
  current := Or.inr ⟨by decide, by decide⟩

theorem twoToms_ongoing : Ongoing 1 twoToms [.call 1 none] where
  admissible := ⟨Nat.one_pos, trivial⟩
  unfinished := ⟨by decide, trivial⟩

theorem sweep_complete_twoToms :
    ∃ logs', Holds (after 1 twoToms [.call 1 none]).storage logs' ∧
      calls [.call 1 none] ≤ (cells (after 1 twoToms [.call 1 none]).storage logs').length :=
  (sweep_complete Nat.one_pos twoToms_holds twoToms_ongoing).2.2.1 [.call 1 none]
    ⟨Nat.one_pos, trivial⟩ ⟨by decide, trivial⟩
    (by intro u d member; cases List.mem_singleton.mp member)

end TinyMqSweepPasses
