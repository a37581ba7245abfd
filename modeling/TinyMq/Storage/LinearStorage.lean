import TinyMq.Storage.TomFile
import Mathlib.Logic.Function.Basic

/-!
`Storage` of `LinearStorage.cpp`. The tom map is the list of its toms in
iteration order; the vendored B-tree index is a finite map, held as the partial
function it denotes. A directory is the list of its tom files in listing order,
each with the number its name parses to.
-/
namespace TinyMqStorage
open ByteStrings TinyMqTom

structure Storage where
  currentTomId : Nat
  toms : List Tom
  index : UUID → Option Record

abbrev Directory := List (Nat × Bytes)

def Storage.contains (s : Storage) (id : Nat) : Bool := s.toms.any (·.id = id)

def Storage.tom (s : Storage) (id : Nat) : Option Tom := s.toms.find? (·.id = id)

def Storage.setTom (s : Storage) (t : Tom) : Storage :=
  { s with toms := s.toms.map fun u => if u.id = t.id then t else u }

/-- The record loop that `rebuildIndex` and `scan` share: it stops behind the
    end and at an empty record, skips deleted records, and a header that cannot
    be read leaves it by the exception. One unit of fuel is one record. -/
def walkTom {σ : Type} (visit : Tom → Record → σ → Tom × σ) :
    Nat → Tom → Nat → σ → Tom × Except StorageError σ
  | 0, t, _, acc => (t, .ok acc)
  | fuel + 1, t, offset, acc =>
    match t.record offset with
    | (t, .error e) => (t, .error e)
    | (t, .ok r) =>
      if r.tomId = noTom ∨ r.header.dataSize = 0 then (t, .ok acc)
      else
        let (t, acc) := if r.header.deleted = 0 then visit t r acc else (t, acc)
        walkTom visit fuel t (offset + headerSize + r.header.dataSize) acc

def walkToms {σ : Type} (visit : Tom → Record → σ → Tom × σ) :
    List Tom → σ → List Tom × Except StorageError σ
  | [], acc => ([], .ok acc)
  | t :: rest, acc =>
    match walkTom visit (t.size + 1) t 0 acc with
    | (t, .error e) => (t :: rest, .error e)
    | (t, .ok acc) =>
      let (rest, result) := walkToms visit rest acc
      (t :: rest, result)

def indexVisit (t : Tom) (r : Record) (index : UUID → Option Record) :
    Tom × (UUID → Option Record) :=
  (t, Function.update index r.header.uuid (some r))

def Storage.rebuildIndex (s : Storage) : Storage × Except StorageError Unit :=
  match walkToms indexVisit s.toms s.index with
  | (toms, .error e) => ({ s with toms := toms }, .error e)
  | (toms, .ok index) => ({ s with toms := toms, index := index }, .ok ())

/-- Unreadable data is skipped: the exception of `data()` is swallowed here,
    but the stream stays failed. -/
def scanVisit (t : Tom) (r : Record) (result : List (Record × Bytes)) :
    Tom × List (Record × Bytes) :=
  match t.data r with
  | (t, .error _) => (t, result)
  | (t, .ok data) => (t, result ++ [(r, data)])

def Storage.scan (s : Storage) : Storage × Except StorageError (List (Record × Bytes)) :=
  let (toms, result) := walkToms scanVisit s.toms []
  ({ s with toms := toms }, result)

def Storage.preOpen (s : Storage) (file : Nat × Bytes) : Storage :=
  if s.contains file.1 then s
  else { s with toms := s.toms ++ [Tom.create file.1 file.2],
                currentTomId := max s.currentTomId file.1 }

/-- The constructor: an exception of `rebuildIndex` leaves it. -/
def Storage.construct (dir : Directory) : Except StorageError Storage :=
  let opened := dir.foldl Storage.preOpen ⟨0,[],fun _ => none⟩
  match opened.rebuildIndex with
  | (_, .error e) => .error e
  | (s, .ok _) => .ok s

def Storage.directory (s : Storage) : Directory := s.toms.map fun t => (t.id, t.tomF.bytes)

def Storage.currentTom (s : Storage) : Storage × Except StorageError Tom :=
  match s.tom s.currentTomId with
  | some t => (s, .ok t)
  | none =>
    let id := s.currentTomId + 1
    if s.contains id then ({ s with currentTomId := id }, .error .cannotEmplaceTom)
    else
      let t := Tom.create id []
      ({ s with currentTomId := id, toms := s.toms ++ [t] }, .ok t)

def Storage.append (s : Storage) (uuid : UUID) (data : Bytes) (fault : Option Nat) :
    Storage × Except StorageError Record :=
  if data.isEmpty then (s, .error .emptyData)
  else
    match s.currentTom with
    | (s, .error e) => (s, .error e)
    | (s, .ok tom) =>
      match tom.append uuid data fault with
      | (tom, .error e) => (s.setTom tom, .error e)
      | (tom, .ok r) =>
        let s := s.setTom tom
        ({ s with index := Function.update s.index r.header.uuid (some r) }, .ok r)

def Storage.recordAt (s : Storage) (tomId offset : Nat) : Storage × Except StorageError Record :=
  match s.tom tomId with
  | none => (s, .error .outOfRange)
  | some t =>
    let (t, r) := t.record offset
    (s.setTom t, r)

def Storage.record (s : Storage) (uuid : UUID) : Record := (s.index uuid).getD {}

def Storage.data (s : Storage) (r : Record) : Storage × Except StorageError Bytes :=
  match s.tom r.tomId with
  | none => (s, .error .outOfRange)
  | some t =>
    let (t, bs) := t.data r
    (s.setTom t, bs)

/-- A record without uuid is the fast acknowledge path: the uuid is then read
    from the header on disk, so that the index entry can be dropped too. -/
def recoverUuid (t : Tom) (r : Record) : Tom × UUID :=
  if r.header.uuid = 0 then
    match t.record r.offset with
    | (t, .ok onDisk) => (t, onDisk.header.uuid)
    | (t, .error _) => (t, 0)
  else (t, r.header.uuid)

def Storage.remove (s : Storage) (r : Record) (fault : Option Nat) :
    Storage × Except StorageError (Record × Bool) :=
  match s.tom r.tomId with
  | none => (s, .error .outOfRange)
  | some t =>
    let (t, uuid) := recoverUuid t r
    let (t, r, ok) := t.remove r fault
    let s := s.setTom t
    if ok ∧ uuid ≠ 0 then ({ s with index := Function.update s.index uuid none }, .ok (r, ok))
    else (s, .ok (r, ok))

/-- Closing the process and opening the directory again. -/
def Storage.reopen (s : Storage) : Except StorageError Storage := Storage.construct s.directory

end TinyMqStorage
