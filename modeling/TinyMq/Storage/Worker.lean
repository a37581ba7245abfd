import TinyMq.Storage.LinearStorage

/-!
The operations of `ConcurrentLinearStorage` as its worker executes them. The
worker catches every exception of the storage and goes on, so what the caller
finds in its operation afterwards is what the fields held before.
-/
namespace TinyMqWorker
open ByteStrings TinyMqTom TinyMqStorage

/-- The public calls that end up in the operation queue. -/
inductive Method where
  | recordAt (tomId offset : Nat)
  | record (uuid : UUID)
  | data (r : Record)
  | append (uuid : UUID) (data : Bytes)
  | remove (r : Record)
  | removeAsync (r : Record)
  | appendBatch (items : List (UUID × Bytes))
  | scan
  deriving DecidableEq

/-- The fields of an operation that carry its result. -/
structure Reply where
  record : Record := {}
  data : Bytes := []
  scanResult : List (Record × Bytes) := []

/-- The batch loop: the first exception leaves it. -/
def appendItems : Storage → List (UUID × Bytes) → List (Option Nat) → Storage
  | s, [], _ => s
  | s, (uuid, data) :: items, faults =>
    match s.append uuid data (faults.headD none) with
    | (s, .error _) => s
    | (s, .ok _) => appendItems s items faults.tail

/-- One dispatch in `run()`; the faults are the device's answers to the writes. -/
def dispatch (s : Storage) (faults : List (Option Nat)) : Method → Storage × Reply
  | .recordAt tomId offset =>
    match s.recordAt tomId offset with
    | (s, .ok r) => (s, { record := r })
    | (s, .error _) => (s, {})
  | .record uuid => (s, { record := s.record uuid })
  | .data r =>
    match s.data r with
    | (s, .ok data) => (s, { record := r, data := data })
    | (s, .error _) => (s, { record := r })
  | .append uuid data =>
    match s.append uuid data (faults.headD none) with
    | (s, .ok r) => (s, { record := r, data := data })
    | (s, .error _) => (s, { data := data })
  | .remove r | .removeAsync r =>
    match s.remove r (faults.headD none) with
    | (s, .ok (r, _)) => (s, { record := r })
    | (s, .error _) => (s, { record := r })
  | .appendBatch items => (appendItems s items faults, {})
  | .scan =>
    match s.scan with
    | (s, .ok records) => (s, { scanResult := records })
    | (s, .error _) => (s, {})

end TinyMqWorker
