import TinyMq.Lib.TombstoneLog
import TinyMq.Storage.LinearStorage

/-!
The bytes of a tom file that holds a log of records, and what the record loop
of `LinearStorage.cpp` finds in them.
-/
namespace TinyMqLogImage
open ByteStrings TombstoneLog TinyMqTom TinyMqStorage

/-- What `append` accepts: `vector<char>` data that is not empty. -/
structure Payload where
  bytes : Bytes
  nonempty : bytes ≠ []
  bounded : bytes.length < 2 ^ 64
  deriving DecidableEq

theorem Payload.length_pos (d : Payload) : 0 < d.bytes.length :=
  List.length_pos_iff.mpr d.nonempty

abbrev RecordLog := Log UUID Payload

def flagOf (removed : Bool) : UInt8 := if removed then 1 else 0

def headerFor (e : Entry UUID Payload) : Header := ⟨e.key,e.data.bytes.length,flagOf e.removed⟩

def entryBytes (e : Entry UUID Payload) : Bytes := headerBytes (headerFor e) ++ e.data.bytes

def entrySize (e : Entry UUID Payload) : Nat := headerSize + e.data.bytes.length

def logBytes (log : RecordLog) : Bytes := log.flatMap entryBytes

def recordFor (tomId offset : Nat) (e : Entry UUID Payload) : Record := ⟨tomId,offset,headerFor e⟩

def offsetOf (log : RecordLog) (i : Nat) : Nat := (logBytes (log.take i)).length

/-- The live records from `offset` on, each with its data, in append order. -/
def liveFrom (tomId : Nat) : Nat → RecordLog → List (Record × Bytes)
  | _, [] => []
  | offset, e :: rest =>
    if e.removed then liveFrom tomId (offset + entrySize e) rest
    else (recordFor tomId offset e, e.data.bytes) :: liveFrom tomId (offset + entrySize e) rest

@[simp] theorem entryBytes_length (e : Entry UUID Payload) :
    (entryBytes e).length = entrySize e := by
  simp [entryBytes, entrySize]

@[simp] theorem logBytes_nil : logBytes [] = [] := rfl

@[simp] theorem logBytes_cons (e : Entry UUID Payload) (log : RecordLog) :
    logBytes (e :: log) = entryBytes e ++ logBytes log := rfl

@[simp] theorem logBytes_append (a b : RecordLog) :
    logBytes (a ++ b) = logBytes a ++ logBytes b := by
  simp [logBytes]

theorem entrySize_large (e : Entry UUID Payload) : headerSize < entrySize e := by
  have := e.data.length_pos
  simp only [entrySize]
  omega

theorem log_length_le_bytes (log : RecordLog) : log.length ≤ (logBytes log).length := by
  induction log with
  | nil => simp
  | cons e rest ih =>
    have := entrySize_large e
    simp only [logBytes_cons, List.length_append, entryBytes_length, List.length_cons]
    omega

theorem offsetOf_append_right (a b : RecordLog) : offsetOf (a ++ b) a.length = (logBytes a).length := by
  simp [offsetOf]

/- An open, intact tom: the length the constructor took is the length of the file. -/
structure Intact (t : Tom) (bytes : Bytes) : Prop where
  good : t.tomF.good = true
  content : t.tomF.bytes = bytes
  sized : t.size = bytes.length
  real : t.id ≠ noTom

theorem read_inside {f : FileStream} {before part after : Bytes} (good : f.good = true)
    (content : f.bytes = before ++ part ++ after) :
    f.read before.length part.length = (f, part) := by
  have inside : f.good = true ∧ before.length + part.length ≤ f.bytes.length := by
    rw [content]
    refine ⟨good, ?_⟩
    simp only [List.length_append]
    omega
  rw [FileStream.read, if_pos inside, content, slice_middle]

theorem record_at_entry {t : Tom} {before after : Bytes} {e : Entry UUID Payload}
    (intact : Intact t (before ++ entryBytes e ++ after)) :
    t.record before.length = (t, .ok (recordFor t.id before.length e)) := by
  have inside : before.length < t.size := by
    have := entrySize_large e
    rw [intact.sized]
    simp only [List.length_append, entryBytes_length]
    omega
  have layout : t.tomF.bytes = before ++ headerBytes (headerFor e) ++ (e.data.bytes ++ after) := by
    rw [intact.content, entryBytes]
    simp only [List.append_assoc]
  have read := read_inside intact.good layout
  rw [headerBytes_length] at read
  simp only [Tom.record, if_pos inside, read, intact.good, if_true]
  rw [headerOf_headerBytes e.data.bounded]
  rfl

theorem record_behind_end {t : Tom} {offset : Nat} (behind : t.size ≤ offset) :
    t.record offset = (t, .ok {}) := by
  have outside : ¬ offset < t.size := by omega
  simp [Tom.record, outside]

theorem data_at_entry {t : Tom} {before after : Bytes} {e : Entry UUID Payload}
    (intact : Intact t (before ++ entryBytes e ++ after)) {r : Record}
    (place : r.offset = before.length) (length : r.header.dataSize = e.data.bytes.length) :
    t.data r = (t, .ok e.data.bytes) := by
  have positive : e.data.bytes.length ≠ 0 := by have := e.data.length_pos; omega
  have layout : t.tomF.bytes =
      (before ++ headerBytes (headerFor e)) ++ e.data.bytes ++ after := by
    rw [intact.content, entryBytes]
    simp only [List.append_assoc]
  have read := read_inside intact.good layout
  rw [List.length_append, headerBytes_length] at read
  simp only [Tom.data, place, length, if_neg positive, read, intact.good, if_true]

theorem append_entry {t : Tom} {bytes : Bytes} (intact : Intact t bytes) (u : UUID) (d : Payload) :
    ∃ t', t.append u d.bytes none = (t', .ok (recordFor t.id bytes.length ⟨u,d,false⟩)) ∧
      t'.id = t.id ∧ Intact t' (bytes ++ entryBytes ⟨u,d,false⟩) := by
  have filled : d.bytes.isEmpty = false := by simpa using d.nonempty
  refine ⟨⟨t.id,bytes.length + entrySize ⟨u,d,false⟩,
    ⟨bytes ++ entryBytes ⟨u,d,false⟩,true⟩⟩, ?_, rfl, ⟨rfl,rfl,?_,intact.real⟩⟩
  · simp only [Tom.append, filled, FileStream.write, intact.good, intact.sized, intact.content,
      overwrite_end]
    simp [recordFor, headerFor, flagOf, entryBytes, entrySize]
  · simp

/- The deleted flag is one byte of the header: setting it in place is the whole
   difference between a live and a removed entry. -/
theorem flag_in_place (before after : Bytes) (e : Entry UUID Payload) :
    overwrite (before ++ entryBytes e ++ after) (before.length + deletedOffset) [1] =
      before ++ entryBytes { e with removed := true } ++ after := by
  let fields := (leBytes 16 e.key.toNat).reverse ++ leBytes 8 e.data.bytes.length
  have cut : ∀ flag, before ++ entryBytes { e with removed := flag } ++ after =
      (before ++ fields) ++ [flagOf flag] ++ (List.replicate 7 0 ++ e.data.bytes ++ after) := by
    intro flag
    simp only [entryBytes, headerFor, headerBytes, fields, List.append_assoc]
  have place : before.length + deletedOffset = (before ++ fields).length := by
    simp [deletedOffset, fields]
  rw [place, cut true, cut e.removed]
  exact overwrite_middle _ _ _ _ rfl

theorem remove_entry {t : Tom} {before after : Bytes} {e : Entry UUID Payload}
    (intact : Intact t (before ++ entryBytes e ++ after)) {r : Record}
    (place : r.offset = before.length) (unmarked : r.header.deleted = 0) :
    ∃ t', t.remove r none = (t', { r with header := { r.header with deleted := 1 } }, true) ∧
      t'.id = t.id ∧ Intact t' (before ++ entryBytes { e with removed := true } ++ after) := by
  refine ⟨{ t with tomF := ⟨before ++ entryBytes { e with removed := true } ++ after,true⟩ },
    ?_, rfl, ⟨rfl,rfl,?_,intact.real⟩⟩
  · have written := flag_in_place before after e
    simp only [Tom.remove, unmarked, FileStream.write, intact.good, intact.content, place, written]
    simp
  · rw [intact.sized]
    simp [entrySize]

theorem entry_goes_on {tomId : Nat} (real : tomId ≠ noTom) (offset : Nat) (e : Entry UUID Payload) :
    ¬ ((recordFor tomId offset e).tomId = noTom ∨
      (recordFor tomId offset e).header.dataSize = 0) := by
  rintro (none_ | empty)
  · exact real none_
  · have := e.data.length_pos
    simp only [recordFor, headerFor] at empty
    omega

theorem behind_entry (tomId : Nat) (before : Bytes) (e : Entry UUID Payload) :
    before.length + headerSize + (recordFor tomId before.length e).header.dataSize =
      (before ++ entryBytes e).length := by
  simp only [recordFor, headerFor, List.length_append, entryBytes_length, entrySize]
  omega

/- One lemma for both loops: over the bytes of a log the walk visits the live
   records, in order, leaves the tom as it was and stands behind the last entry. -/
theorem walk_entries {σ : Type} {visit : Tom → Record → σ → Tom × σ}
    {f : σ → Record × Bytes → σ} {t : Tom}
    (visits : ∀ (before after : Bytes) (e : Entry UUID Payload) (acc : σ),
      Intact t (before ++ entryBytes e ++ after) →
      visit t (recordFor t.id before.length e) acc =
        (t, f acc (recordFor t.id before.length e, e.data.bytes)))
    (log : RecordLog) (before tail : Bytes) (intact : Intact t (before ++ logBytes log ++ tail))
    (fuel : Nat) (acc : σ) :
    walkTom visit (log.length + fuel) t before.length acc =
      walkTom visit fuel t (before.length + (logBytes log).length)
        ((liveFrom t.id before.length log).foldl f acc) := by
  induction log generalizing before acc with
  | nil => simp [liveFrom]
  | cons e rest ih =>
    have split : before ++ logBytes (e :: rest) ++ tail =
        before ++ entryBytes e ++ (logBytes rest ++ tail) := by simp
    rw [split] at intact
    have head := record_at_entry intact
    have goes := entry_goes_on intact.real before.length e
    have next := behind_entry t.id before e
    have place : (before ++ entryBytes e).length = before.length + entrySize e := by simp
    have later := ih (before ++ entryBytes e) (by simpa using intact)
    have spent : (e :: rest).length + fuel = (rest.length + fuel) + 1 := by
      simp only [List.length_cons]
      omega
    have total : before.length + (logBytes (e :: rest)).length =
        before.length + entrySize e + (logBytes rest).length := by
      simp only [logBytes_cons, List.length_append, entryBytes_length]
      omega
    rw [place] at later next
    rw [spent, total]
    simp only [walkTom, head, if_neg goes, next]
    cases removed : e.removed with
    | true =>
      have flag : (recordFor t.id before.length e).header.deleted ≠ 0 := by
        simp [recordFor, headerFor, flagOf, removed]
      simp [flag, later, liveFrom, removed]
    | false =>
      have seen := visits before (logBytes rest ++ tail) e acc intact
      have flag : (recordFor t.id before.length e).header.deleted = 0 := by
        simp [recordFor, headerFor, flagOf, removed]
      simp [flag, seen, later, liveFrom, removed]

theorem walk_fuel {t : Tom} {log : RecordLog} {tail : Bytes}
    (intact : Intact t (logBytes log ++ tail)) :
    ∃ fuel, t.size + 1 = log.length + (fuel + 1) ∧ tail.length ≤ fuel := by
  have bound := log_length_le_bytes log
  refine ⟨t.size - log.length, ?_, ?_⟩ <;>
    (rw [intact.sized, List.length_append]; omega)

theorem walk_log {σ : Type} {visit : Tom → Record → σ → Tom × σ}
    {f : σ → Record × Bytes → σ} {t : Tom}
    (visits : ∀ (before after : Bytes) (e : Entry UUID Payload) (acc : σ),
      Intact t (before ++ entryBytes e ++ after) →
      visit t (recordFor t.id before.length e) acc =
        (t, f acc (recordFor t.id before.length e, e.data.bytes)))
    {log : RecordLog} (intact : Intact t (logBytes log)) (acc : σ) :
    walkTom visit (t.size + 1) t 0 acc =
      (t, .ok ((liveFrom t.id 0 log).foldl f acc)) := by
  have whole : Intact t (logBytes log ++ []) := by simpa using intact
  obtain ⟨fuel, spent, _⟩ := walk_fuel whole
  have entries := walk_entries visits log [] [] (by simpa using intact) (fuel + 1) acc
  have behind : t.size ≤ (logBytes log).length := Nat.le_of_eq intact.sized
  rw [spent]
  simp only [List.length_nil, Nat.zero_add] at entries
  rw [entries]
  simp [walkTom, record_behind_end behind]

theorem scanVisit_entry {t : Tom} (before after : Bytes) (e : Entry UUID Payload)
    (acc : List (Record × Bytes)) (intact : Intact t (before ++ entryBytes e ++ after)) :
    scanVisit t (recordFor t.id before.length e) acc =
      (t, acc ++ [(recordFor t.id before.length e, e.data.bytes)]) := by
  have data := data_at_entry (r := recordFor t.id before.length e) intact rfl rfl
  simp [scanVisit, data]

theorem foldl_snoc {β : Type} (xs acc : List β) :
    xs.foldl (fun acc x => acc ++ [x]) acc = acc ++ xs := by
  induction xs generalizing acc with
  | nil => simp
  | cons x xs ih => simp [ih]

theorem scan_log {t : Tom} {log : RecordLog} (intact : Intact t (logBytes log))
    (acc : List (Record × Bytes)) :
    walkTom scanVisit (t.size + 1) t 0 acc = (t, .ok (acc ++ liveFrom t.id 0 log)) := by
  have run := walk_log (f := fun acc x => acc ++ [x]) scanVisit_entry intact acc
  rw [foldl_snoc] at run
  exact run

def indexStep (index : UUID → Option Record) (x : Record × Bytes) : UUID → Option Record :=
  Function.update index x.1.header.uuid (some x.1)

/-- The index after the loop: every live record under its uuid. -/
def indexOf (records : List (Record × Bytes)) (index : UUID → Option Record) :
    UUID → Option Record :=
  records.foldl indexStep index

theorem indexVisit_entry {t : Tom} (before after : Bytes) (e : Entry UUID Payload)
    (index : UUID → Option Record) (_ : Intact t (before ++ entryBytes e ++ after)) :
    indexVisit t (recordFor t.id before.length e) index =
      (t, indexStep index (recordFor t.id before.length e, e.data.bytes)) := rfl

theorem index_log {t : Tom} {log : RecordLog} (intact : Intact t (logBytes log))
    (index : UUID → Option Record) :
    walkTom indexVisit (t.size + 1) t 0 index =
      (t, .ok (indexOf (liveFrom t.id 0 log) index)) :=
  walk_log indexVisit_entry intact index

theorem liveFrom_append (tomId offset : Nat) (a b : RecordLog) :
    liveFrom tomId offset (a ++ b) =
      liveFrom tomId offset a ++ liveFrom tomId (offset + (logBytes a).length) b := by
  induction a generalizing offset with
  | nil => simp [liveFrom]
  | cons e a ih =>
    cases removed : e.removed <;>
      simp [liveFrom, removed, ih, Nat.add_assoc]

theorem liveFrom_uuids (tomId offset : Nat) (log : RecordLog) :
    (liveFrom tomId offset log).map (fun x => x.1.header.uuid) = keys (live log) := by
  induction log generalizing offset with
  | nil => rfl
  | cons e log ih =>
    cases removed : e.removed <;>
      simp [liveFrom, live, keys, removed, recordFor, headerFor] <;>
      simpa [live, keys] using ih (offset + entrySize e)

def lookup (records : List (Record × Bytes)) (u : UUID) : Option Record :=
  (records.find? fun x => x.1.header.uuid = u).map Prod.fst

theorem lookup_none {records : List (Record × Bytes)} {u : UUID}
    (absent : u ∉ records.map fun x => x.1.header.uuid) : lookup records u = none := by
  have never : records.find? (fun x => x.1.header.uuid = u) = none := by
    rw [List.find?_eq_none]
    intro x member
    simp only [decide_eq_true_eq]
    rintro rfl
    exact absent (List.mem_map_of_mem member)
  rw [lookup, never, Option.map_none]

theorem lookup_append (a b : List (Record × Bytes)) (u : UUID) :
    lookup (a ++ b) u = (lookup a u).or (lookup b u) := by
  unfold lookup
  rw [List.find?_append, Option.map_or]

/- The loop keeps the last record of a uuid, the lookup takes the first: with
   distinct uuids they are the same. -/
theorem indexOf_lookup {records : List (Record × Bytes)}
    (distinct : (records.map fun x => x.1.header.uuid).Nodup)
    (index : UUID → Option Record) (u : UUID) :
    indexOf records index u = (lookup records u).or (index u) := by
  induction records generalizing index with
  | nil => simp [indexOf, lookup]
  | cons x rest ih =>
    obtain ⟨fresh, tail⟩ := List.nodup_cons.mp distinct
    have unfolded : indexOf (x :: rest) index = indexOf rest (indexStep index x) := rfl
    rw [unfolded, ih tail (indexStep index x)]
    by_cases same : x.1.header.uuid = u
    · subst same
      rw [lookup_none fresh]
      simp [lookup, indexStep]
    · have other : u ≠ x.1.header.uuid := fun h => same h.symm
      simp [lookup, same, indexStep, Function.update_of_ne other]

end TinyMqLogImage
