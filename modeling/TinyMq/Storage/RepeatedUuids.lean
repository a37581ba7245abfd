import TinyMq.Storage.StorageRuns

/-!
Runs that append a uuid more than once, as the fan-out of a topic into the
shared storage does. The log keeps every record, the index one entry for each
uuid, and a removal drops that entry whichever record it removes.
-/
namespace TinyMqRepeatedUuids
open ByteStrings TombstoneLog Machines
open TinyMqTom TinyMqStorage TinyMqLogImage TinyMqRefinement TinyMqStorageRuns

def next (s : Storage) (op : Op) : Storage := (step s op).1

/-- `record(uuid)` finds a record iff the scan has a live one of that uuid, and
    the one it finds is among them. -/
def Agree (s : Storage) : Prop :=
  ∃ records, s.scan.2 = .ok records ∧ ∀ u,
    ((s.record u).tomId ≠ noTom ↔ ∃ x ∈ records, x.1.header.uuid = u) ∧
    ((s.record u).tomId ≠ noTom → ∃ x ∈ records, x.1 = s.record u ∧ x.1.header.uuid = u)

/-- The callers' part: any uuid may be appended, and a record argument comes from the storage. -/
def Handed (log : RecordLog) : Op → Prop
  | .append _ _ => True
  | op => Admissible log op

/-- The removal of `r` leaves no other live record of its uuid behind. A record
    under the nil uuid keeps its index entry, so there it must not be the indexed one. -/
def Sole (s : Storage) (r : Record) : Prop :=
  match (s.recordAt r.tomId r.offset).2, s.scan.2 with
  | .ok onDisk, .ok records =>
    if onDisk.header.uuid = 0 then (s.record 0).tomId = noTom ∨ (s.record 0).offset ≠ r.offset
    else ∀ x ∈ records, x.1.header.uuid = onDisk.header.uuid → x.1.offset = r.offset
  | _, _ => True

def Kept (s : Storage) : Op → Prop
  | .remove r => Sole s r
  | _ => True

/-- What holds of the storage and its log in every run. -/
structure Held (s : Storage) (log : RecordLog) : Prop where
  filed : Filed s log
  index : ∀ u r, s.index u = some r → r.tomId = firstTom ∧ r.header.uuid = u

def Indexed (index : UUID → Option Record) (records : List (Record × Bytes)) : Prop :=
  (∀ u r, index u = some r → ∃ x ∈ records, x.1 = r) ∧
    ∀ x ∈ records, index x.1.header.uuid ≠ none

theorem found_iff {s : Storage} {log : RecordLog} (held : Held s log) (u : UUID) :
    (s.record u).tomId ≠ noTom ↔ s.index u ≠ none := by
  cases found : s.index u with
  | none => simp [Storage.record, found]
  | some r =>
    have placed := (held.index u r found).1
    simp [Storage.record, found, placed, firstTom_real]

theorem agree_iff {s : Storage} {log : RecordLog} (held : Held s log) :
    Agree s ↔ Indexed s.index (liveFrom firstTom 0 log) := by
  have scanned : s.scan.2 = .ok (liveFrom firstTom 0 log) := by rw [scan_filed held.filed]
  constructor
  · rintro ⟨records, same, agrees⟩
    rw [scanned] at same
    obtain rfl := Except.ok.inj same
    refine ⟨?_, ?_⟩
    · intro u r found
      obtain ⟨x, member, equal, _⟩ := (agrees u).2 ((found_iff held u).mpr (by simp [found]))
      refine ⟨x, member, ?_⟩
      rw [equal, Storage.record, found, Option.getD_some]
    · intro x member
      exact (found_iff held _).mp ((agrees _).1.mpr ⟨x, member, rfl⟩)
  · rintro ⟨present, complete⟩
    refine ⟨_, scanned, ?_⟩
    intro u
    have shown : (s.record u).tomId ≠ noTom → ∃ x ∈ liveFrom firstTom 0 log,
        x.1 = s.record u ∧ x.1.header.uuid = u := by
      intro real
      obtain ⟨r, found⟩ := Option.ne_none_iff_exists'.mp ((found_iff held u).mp real)
      obtain ⟨x, member, equal⟩ := present u r found
      have same : s.record u = r := by rw [Storage.record, found, Option.getD_some]
      refine ⟨x, member, by rw [equal, same], ?_⟩
      rw [equal]
      exact (held.index u r found).2
    refine ⟨⟨?_, ?_⟩, shown⟩
    · intro real
      obtain ⟨x, member, _, named⟩ := shown real
      exact ⟨x, member, named⟩
    · rintro ⟨x, member, rfl⟩
      exact (found_iff held _).mpr (complete x member)

theorem fresh_held : Held fresh [] := ⟨Or.inl ⟨rfl,rfl,rfl⟩, by simp [fresh]⟩

theorem fresh_agrees : Agree fresh := by
  rw [agree_iff fresh_held]
  exact ⟨by simp [fresh], by simp [liveFrom]⟩

section Append
variable {s : Storage} {log : RecordLog}

theorem append_held (held : Held s log) (u : UUID) (d : Payload) :
    Held (next s (.append u d)) (append log u d) := by
  obtain ⟨s', done, filed, index⟩ := append_filed held.filed u d
  simp only [next, step, done]
  refine ⟨filed, ?_⟩
  intro v r found
  rw [index] at found
  by_cases same : v = u
  · subst same
    rw [Function.update_self, Option.some.injEq] at found
    subst found
    exact ⟨rfl, rfl⟩
  · rw [Function.update_of_ne same] at found
    exact held.index v r found

theorem append_agrees (held : Held s log) (u : UUID) (d : Payload) (agree : Agree s) :
    Agree (next s (.append u d)) := by
  have after := append_held held u d
  rw [agree_iff held] at agree
  rw [agree_iff after]
  obtain ⟨s', done, _, index⟩ := append_filed held.filed u d
  simp only [next, step, done]
  rw [index, liveFrom_snoc]
  refine ⟨?_, ?_⟩
  · intro v r found
    by_cases same : v = u
    · subst same
      rw [Function.update_self, Option.some.injEq] at found
      exact ⟨_, List.mem_append_right _ (List.mem_singleton.mpr rfl), found⟩
    · rw [Function.update_of_ne same] at found
      obtain ⟨x, member, equal⟩ := agree.1 v r found
      exact ⟨x, List.mem_append_left _ member, equal⟩
  · intro x member
    by_cases same : x.1.header.uuid = u
    · simp [same]
    · rw [Function.update_of_ne same]
      rcases List.mem_append.mp member with old | last
      · exact agree.2 x old
      · rw [List.mem_singleton.mp last] at same
        exact absurd rfl same

end Append

section Remove
variable {s : Storage} {a b : RecordLog} {e : Entry UUID Payload} {r : Record}

theorem remove_held (held : Held s (a ++ e :: b)) (points : PointsAt r (logBytes a).length e) :
    Held (next s (.remove r)) (a ++ { e with removed := true } :: b) := by
  obtain ⟨s', r', done, _, filed, index⟩ := remove_filed held.filed points
  simp only [next, step, done]
  refine ⟨filed, ?_⟩
  intro u q found
  rw [index] at found
  by_cases nil : e.key = 0
  · rw [if_pos nil] at found
    exact held.index u q found
  · rw [if_neg nil] at found
    by_cases same : u = e.key
    · subst same
      simp at found
    · rw [Function.update_of_ne same] at found
      exact held.index u q found

theorem live_at_place {x : Record × Bytes} (member : x ∈ liveFrom firstTom 0 (a ++ e :: b))
    (place : x.1.offset = (logBytes a).length) : x.1.header.uuid = e.key := by
  have size := entrySize_large e
  rw [liveFrom_append, List.mem_append, Nat.zero_add] at member
  rcases member with before | member
  · have := liveFrom_places before
    omega
  · cases removed : e.removed with
    | true =>
      simp only [liveFrom, removed, if_true] at member
      have := liveFrom_places member
      omega
    | false =>
      simp only [liveFrom, removed, Bool.false_eq_true, if_false, List.mem_cons] at member
      rcases member with rfl | after
      · rfl
      · have := liveFrom_places after
        omega

theorem sole_iff (held : Held s (a ++ e :: b)) (points : PointsAt r (logBytes a).length e) :
    Sole s r ↔
      if e.key = 0 then ∀ q, s.index 0 = some q → q.offset ≠ (logBytes a).length
      else ∀ x ∈ liveFrom firstTom 0 (a ++ e :: b), x.1.header.uuid = e.key →
        x.1.offset = (logBytes a).length := by
  have onDisk : (s.recordAt r.tomId r.offset).2 =
      .ok (recordFor firstTom (logBytes a).length e) := by
    rw [points.tom, points.place, recordAt_filed held.filed]
  have scanned : s.scan.2 = .ok (liveFrom firstTom 0 (a ++ e :: b)) := by
    rw [scan_filed held.filed]
  unfold Sole
  rw [onDisk, scanned]
  simp only [points.place]
  show (if e.key = 0 then _ else _) ↔ _
  by_cases nil : e.key = 0
  · rw [if_pos nil, if_pos nil]
    have real := found_iff held 0
    cases found : s.index 0 with
    | none =>
      have missing : (s.record 0).tomId = noTom := by
        by_contra present
        exact real.mp present found
      constructor
      · intro _ q absent
        cases absent
      · intro _
        exact Or.inl missing
    | some q =>
      have same : s.record 0 = q := by rw [Storage.record, found, Option.getD_some]
      have present : q.tomId ≠ noTom := by
        rw [← same]
        exact real.mpr (by rw [found]; exact Option.some_ne_none q)
      rw [same]
      constructor
      · rintro (missing | other) p equal
        · exact absurd missing present
        · rw [← Option.some.inj equal]
          exact other
      · intro other
        exact Or.inr (other q rfl)
  · rw [if_neg nil, if_neg nil]
    exact Iff.rfl

theorem remove_agrees_iff (held : Held s (a ++ e :: b))
    (points : PointsAt r (logBytes a).length e) (agree : Agree s) :
    Agree (next s (.remove r)) ↔ Sole s r := by
  have after := remove_held held points
  rw [agree_iff held] at agree
  rw [agree_iff after, sole_iff held points, liveFrom_removed]
  obtain ⟨s', r', done, _, _, index⟩ := remove_filed held.filed points
  simp only [next, step, done]
  rw [index]
  have stays : ∀ x ∈ liveFrom firstTom 0 (a ++ e :: b), x.1.header.uuid ≠ e.key →
      x ∈ (liveFrom firstTom 0 (a ++ e :: b)).filter
        fun x => x.1.offset ≠ (logBytes a).length := by
    intro x member other
    rw [List.mem_filter, decide_eq_true_eq]
    exact ⟨member, fun place => other (live_at_place member place)⟩
  by_cases nil : e.key = 0
  · rw [if_pos nil, if_pos nil]
    constructor
    · rintro ⟨present, _⟩ q found
      obtain ⟨x, member, equal⟩ := present 0 q found
      rw [← equal]
      simpa using (List.mem_filter.mp member).2
    · intro other
      refine ⟨?_, fun x member => agree.2 x (List.mem_filter.mp member).1⟩
      intro u q found
      obtain ⟨x, member, equal⟩ := agree.1 u q found
      refine ⟨x, ?_, equal⟩
      by_cases zero : u = 0
      · subst zero
        rw [List.mem_filter, decide_eq_true_eq, equal]
        exact ⟨member, other q found⟩
      · apply stays x member
        rw [equal, nil, (held.index u q found).2]
        exact zero
  · rw [if_neg nil, if_neg nil]
    constructor
    · rintro ⟨_, complete⟩ x member named
      by_contra elsewhere
      have indexed := complete x (List.mem_filter.mpr ⟨member, by simpa using elsewhere⟩)
      rw [named] at indexed
      simp at indexed
    · intro sole
      refine ⟨?_, ?_⟩
      · intro u q found
        by_cases same : u = e.key
        · subst same
          simp at found
        · rw [Function.update_of_ne same] at found
          obtain ⟨x, member, equal⟩ := agree.1 u q found
          refine ⟨x, stays x member ?_, equal⟩
          rw [equal, (held.index u q found).2]
          exact same
      · intro x member
        obtain ⟨inside, elsewhere⟩ := List.mem_filter.mp member
        have other : x.1.header.uuid ≠ e.key := by
          intro named
          simp [sole x inside named] at elsewhere
        rw [Function.update_of_ne other]
        exact agree.2 x inside

end Remove

section Reopen
variable {s : Storage} {log : RecordLog}

theorem indexOf_indexed {records : List (Record × Bytes)} {u : UUID} {r : Record}
    {index : UUID → Option Record} (found : indexOf records index u = some r) :
    (∃ x ∈ records, x.1 = r ∧ x.1.header.uuid = u) ∨ index u = some r := by
  induction records generalizing index with
  | nil => exact Or.inr found
  | cons x rest ih =>
    have later : indexOf rest (indexStep index x) u = some r := found
    rcases ih later with ⟨y, member, equal⟩ | old
    · exact Or.inl ⟨y, List.mem_cons_of_mem x member, equal⟩
    · by_cases same : u = x.1.header.uuid
      · subst same
        simp only [indexStep, Function.update_self, Option.some.injEq] at old
        exact Or.inl ⟨x, by simp, old, rfl⟩
      · rw [indexStep, Function.update_of_ne same] at old
        exact Or.inr old

theorem indexOf_complete {records : List (Record × Bytes)} {u : UUID}
    {index : UUID → Option Record}
    (some_ : (∃ x ∈ records, x.1.header.uuid = u) ∨ index u ≠ none) :
    indexOf records index u ≠ none := by
  induction records generalizing index with
  | nil => simpa [indexOf] using some_
  | cons x rest ih =>
    show indexOf rest (indexStep index x) u ≠ none
    apply ih
    by_cases same : u = x.1.header.uuid
    · right
      subst same
      simp [indexStep]
    · rcases some_ with ⟨y, member, named⟩ | old
      · rcases List.mem_cons.mp member with rfl | later
        · exact absurd named.symm same
        · exact Or.inl ⟨y, later, named⟩
      · right
        rwa [indexStep, Function.update_of_ne same]

/- The constructor indexes the last live record of every uuid, so it repairs the index. -/
theorem reopen_agrees (held : Held s log) :
    ∃ s', s.reopen = .ok s' ∧ Held s' log ∧ Agree s' := by
  obtain ⟨s', opened, filed, index⟩ := reopen_filed held.filed
  have sound : ∀ u r, s'.index u = some r →
      ∃ x ∈ liveFrom firstTom 0 log, x.1 = r ∧ x.1.header.uuid = u := by
    intro u r found
    rw [index] at found
    rcases indexOf_indexed found with live | old
    · exact live
    · cases old
  have held' : Held s' log := by
    refine ⟨filed, ?_⟩
    intro u r found
    obtain ⟨x, member, rfl, named⟩ := sound u r found
    exact ⟨(liveFrom_places member).1, named⟩
  refine ⟨s', opened, held', ?_⟩
  rw [agree_iff held']
  refine ⟨?_, ?_⟩
  · intro u r found
    obtain ⟨x, member, equal, _⟩ := sound u r found
    exact ⟨x, member, equal⟩
  · intro x member
    rw [index]
    exact indexOf_complete (Or.inl ⟨x, member, rfl⟩)

end Reopen

theorem step_agrees {s : Storage} {log : RecordLog} {op : Op} (held : Held s log)
    (ok : Handed log op) :
    Held (next s op) (specLog log op) ∧ (Agree s → (Agree (next s op) ↔ Kept s op)) := by
  have still : next s op = s → specLog log op = log → Kept s op →
      Held (next s op) (specLog log op) ∧ (Agree s → (Agree (next s op) ↔ Kept s op)) := by
    intro same log_ kept
    rw [same, log_]
    exact ⟨held, fun agree => ⟨fun _ => kept, fun _ => agree⟩⟩
  cases op with
  | append u d =>
    exact ⟨append_held held u d, fun agree => ⟨fun _ => trivial, fun _ => append_agrees held u d agree⟩⟩
  | remove r =>
    by_cases first : r.tomId = firstTom
    · obtain elsewhere | ⟨a, e, b, rfl, points⟩ := ok
      · exact absurd first elsewhere
      · have log_ : specLog (a ++ e :: b) (.remove r) = a ++ { e with removed := true } :: b := by
          simp only [specLog, if_pos first]
          rw [points.place, markFrom_remove, remove_split]
        rw [log_]
        exact ⟨remove_held held points, remove_agrees_iff held points⟩
    · have missing := tom_elsewhere held.filed first
      refine still ?_ (by simp [specLog, first]) ?_
      · simp [next, step, Storage.remove, missing]
      · simp [Kept, Sole, Storage.recordAt, missing]
  | record u => exact still rfl rfl trivial
  | recordAt tomId offset =>
    refine still ?_ rfl trivial
    rcases ok with elsewhere | within
    · simp [next, step, Storage.recordAt, tom_elsewhere held.filed elsewhere]
    · exact recordAt_unchanged held.filed within
  | data r =>
    refine still ?_ rfl trivial
    rcases ok with elsewhere | ⟨a, e, b, rfl, place, length⟩
    · simp [next, step, Storage.data, tom_elsewhere held.filed elsewhere]
    · by_cases first : r.tomId = firstTom
      · simp [next, step, data_filed held.filed first place length]
      · simp [next, step, Storage.data, tom_elsewhere held.filed first]
  | scan => exact still (by simp [next, step, scan_filed held.filed]) rfl trivial
  | reopen =>
    obtain ⟨s', opened, held', agree'⟩ := reopen_agrees held
    simp only [next, step, opened, specLog]
    exact ⟨held', fun _ => ⟨fun _ => trivial, fun _ => agree'⟩⟩

theorem run_agrees_iff {s : Storage} {log : RecordLog} {ops : List Op} (held : Held s log)
    (agree : Agree s) (ok : Meets specLog Handed log ops) :
    (∀ t ∈ states next s ops, Agree t ∧ ∃ t', t.reopen = .ok t' ∧ Agree t') ↔
      Meets next Kept s ops := by
  have opens : ∀ {s : Storage} {log : RecordLog}, Held s log → ∃ t', s.reopen = .ok t' ∧ Agree t' := by
    intro s log held
    obtain ⟨t', opened, _, agree'⟩ := reopen_agrees held
    exact ⟨t', opened, agree'⟩
  induction ops generalizing s log with
  | nil => simpa [states, Meets] using ⟨agree, opens held⟩
  | cons op ops ih =>
    obtain ⟨held', one⟩ := step_agrees held ok.1
    have first : next s op ∈ states next (next s op) ops := by
      cases ops <;> simp [states]
    simp only [states, List.mem_cons, forall_eq_or_imp, Meets]
    constructor
    · rintro ⟨_, rest⟩
      have agree' := (rest _ first).1
      exact ⟨(one agree).mp agree', (ih held' agree' ok.2).mp rest⟩
    · rintro ⟨kept, rest⟩
      have agree' := (one agree).mpr kept
      exact ⟨⟨agree, opens held⟩, (ih held' agree' ok.2).mpr rest⟩

theorem index_agrees_iff (ops : List Op) (ok : Meets specLog Handed [] ops) :
    (∀ s ∈ states next fresh ops, Agree s ∧ ∃ s', s.reopen = .ok s' ∧ Agree s') ↔
      Meets next Kept fresh ops :=
  run_agrees_iff fresh_held fresh_agrees ok

def twice : List Op :=
  [.append 1 (oneByte 7), .append 1 (oneByte 9),
    .remove (recordFor firstTom 33 ⟨1,oneByte 9,false⟩)]

theorem twice_handed : Meets specLog Handed [] twice :=
  ⟨trivial, trivial, Or.inr ⟨[⟨1,oneByte 7,false⟩],⟨1,oneByte 9,false⟩,[],rfl,rfl,rfl,Or.inl rfl,by decide⟩,
    trivial⟩

/- The first record is still live, but its uuid is gone from the index. -/
theorem twice_disagrees : ¬ Agree (twice.foldl next fresh) := by
  rintro ⟨records, scanned, agrees⟩
  have live : (twice.foldl next fresh).scan.2 =
      .ok [(recordFor firstTom 0 ⟨1,oneByte 7,false⟩, [7])] := by
    obtain ⟨held, _⟩ := step_agrees fresh_held twice_handed.1
    obtain ⟨held, _⟩ := step_agrees held twice_handed.2.1
    obtain ⟨held, _⟩ := step_agrees held twice_handed.2.2.1
    exact congrArg Prod.snd (scan_filed held.filed)
  rw [live] at scanned
  obtain rfl := Except.ok.inj scanned
  have found := (agrees 1).1.mpr ⟨_, List.mem_singleton.mpr rfl, rfl⟩
  exact found (by decide)

/-- The record of one uuid is removed while the other uuid keeps its own, and
    the first uuid is then used again. -/
def inTurn : List Op :=
  [.append 1 (oneByte 7), .append 2 (oneByte 9),
    .remove (recordFor firstTom 0 ⟨1,oneByte 7,false⟩), .append 1 (oneByte 7), .reopen]

theorem index_agrees_iff_inTurn :
    Agree (inTurn.foldl next fresh) ∧
      ∃ s', (inTurn.foldl next fresh).reopen = .ok s' ∧ Agree s' := by
  have points : PointsAt (recordFor firstTom 0 ⟨1,oneByte 7,false⟩) (logBytes []).length
      ⟨1,oneByte 7,false⟩ := ⟨rfl,rfl,Or.inl rfl,by decide⟩
  have handed : Meets specLog Handed [] inTurn :=
    ⟨trivial, trivial, Or.inr ⟨[],_,[⟨2,oneByte 9,false⟩],rfl,points⟩, trivial, trivial, trivial⟩
  have first := (step_agrees fresh_held handed.1).1
  have second := (step_agrees first handed.2.1).1
  have sole := (sole_iff (a := []) (b := [⟨2,oneByte 9,false⟩]) second points).mpr (by decide)
  exact (index_agrees_iff inTurn handed).mpr ⟨trivial, trivial, sole, trivial, trivial, trivial⟩
    _ (last_state_mem next fresh inTurn)

end TinyMqRepeatedUuids
