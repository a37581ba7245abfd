import TinyMq.Storage.StorageRuns
import TinyMq.Storage.WorkerHandshake

/-!
What the worker leaves in the storage, whatever the threads do. The operations
are executed one after the other in the order of the dequeues, with sweeps of
expired records in between: the storage always holds the log of the executed
appends, and the sweep cursor always stands at the boundary of a record.
-/
namespace TinyMqWorkerRuns
open ByteStrings TombstoneLog TinyMqTom TinyMqStorage TinyMqLogImage TinyMqRefinement
open TinyMqStorageRuns TinyMqSweep TinyMqWorker TinyMqWorkerHandshake Machines

/-- The calls on the storage that one operation makes. -/
inductive Asks : Method → List Op → Prop
  | append (u : UUID) (d : Payload) : Asks (.append u d.bytes) [.append u d]
  | appendBatch (batch : List (UUID × Payload)) :
    Asks (.appendBatch (batch.map fun p => (p.1, p.2.bytes))) (batch.map fun p => .append p.1 p.2)
  | remove (r : Record) : Asks (.remove r) [.remove r]
  | removeAsync (r : Record) : Asks (.removeAsync r) [.remove r]
  | record (u : UUID) : Asks (.record u) [.record u]
  | recordAt (tomId offset : Nat) : Asks (.recordAt tomId offset) [.recordAt tomId offset]
  | data (r : Record) : Asks (.data r) [.data r]
  | scan : Asks .scan [.scan]

def written : Method → List (UUID × Bytes)
  | .append u data => [(u, data)]
  | .appendBatch items => items
  | _ => []

def contents (log : RecordLog) : List (UUID × Bytes) := log.map fun e => (e.key, e.data.bytes)

theorem written_appended {method : Method} {ops : List Op} (asks : Asks method ops) :
    written method = (appended ops).map fun p => (p.1, p.2.bytes) := by
  cases asks with
  | appendBatch batch =>
    have pairs : appended (batch.map fun p => .append p.1 p.2) = batch := by
      unfold appended
      rw [List.filterMap_map]
      exact List.filterMap_some
    simp only [written, pairs]
  | _ => rfl

theorem appendItems_run {s : Storage} {log : RecordLog} (rep : Represents s log)
    {batch : List (UUID × Payload)}
    (ok : Meets specLog Admissible log (batch.map fun p => .append p.1 p.2)) :
    appendItems s (batch.map fun p => (p.1, p.2.bytes)) [] =
      run s (batch.map fun p => .append p.1 p.2) := by
  induction batch generalizing s log with
  | nil => rfl
  | cons p batch ih =>
    obtain ⟨s', done, rep'⟩ := append_represents rep p.2 ok.1.1 ok.1.2
    simp only [List.map_cons, appendItems, List.headD_nil, done, List.tail_nil, run, List.foldl_cons,
      step]
    exact ih rep' ok.2

theorem dispatch_run {s : Storage} {log : RecordLog} (rep : Represents s log) {method : Method}
    {ops : List Op} (asks : Asks method ops) (ok : Meets specLog Admissible log ops) :
    (dispatch s [] method).1 = run s ops := by
  cases asks with
  | append u d =>
    obtain ⟨s', done, _⟩ := append_represents rep d ok.1.1 ok.1.2
    simp [dispatch, run, step, done]
  | appendBatch batch => exact appendItems_run rep ok
  | remove r | removeAsync r =>
    simp only [dispatch, List.headD_nil, run, List.foldl_cons, List.foldl_nil, step]
    rcases s.remove r none with ⟨_, _ | _⟩ <;> rfl
  | record u => rfl
  | recordAt tomId offset =>
    simp only [dispatch, run, List.foldl_cons, List.foldl_nil, step]
    rcases s.recordAt tomId offset with ⟨_, _ | _⟩ <;> rfl
  | data r =>
    simp only [dispatch, run, List.foldl_cons, List.foldl_nil, step]
    rcases s.data r with ⟨_, _ | _⟩ <;> rfl
  | scan => simp [dispatch, run, step, scan_filed rep.toms]

@[simp] theorem contents_append (a b : RecordLog) : contents (a ++ b) = contents a ++ contents b :=
  List.map_append

theorem contents_specRun (log : RecordLog) (ops : List Op) :
    contents (specRun log ops) = contents log ++ (appended ops).map fun p => (p.1, p.2.bytes) := by
  have pairs : ∀ l : RecordLog,
      contents l = (l.map fun e => (e.key, e.data)).map fun p => (p.1, p.2.bytes) := by
    intro l
    simp only [contents, List.map_map]
    rfl
  rw [pairs, specRun_payload, List.map_append, ← pairs]

theorem contents_expire (nowMs : Int) (log : RecordLog) :
    contents (log.map (expire nowMs)) = contents log := by
  unfold contents
  rw [List.map_map]
  apply List.map_congr_left
  intro e _
  simp only [Function.comp_apply, expire]
  split <;> rfl

theorem length_of_contents {a b : RecordLog} (same : contents a = contents b) :
    (logBytes a).length = (logBytes b).length := by
  induction a generalizing b with
  | nil =>
    rw [List.map_eq_nil_iff.mp same.symm]
  | cons e a ih =>
    obtain ⟨f, b, rfl, first, rest⟩ := List.map_eq_cons_iff.mp same.symm
    have data := (Prod.mk.inj first).2
    simp only [logBytes_cons, List.length_append, entryBytes_length, entrySize, ih rest.symm, data]

theorem stands_of_contents {cursor : SweepCursor} {a b : RecordLog} (stands : Stands cursor a)
    (same : contents a = contents b) : Stands cursor b := by
  rcases stands with ⟨front, rfl⟩ | here
  · exact Or.inl ⟨front, List.map_eq_nil_iff.mp same.symm⟩
  · rw [length_of_contents same] at here
    exact Or.inr here

/-- The storage holds the log of the executed operations, and the sweep stands in it. -/
def Serial (s : State) : Prop :=
  ∃ a rest, Represents s.storage (a ++ rest) ∧ Stands s.sweepCursor a ∧
    contents (a ++ rest) = s.executed.flatMap fun x => written x.2

/-- The device does not fail, and the worker executes what a caller may ask of the log. -/
def Orderly (s : State) : Act → Prop
  | .work _ faults => faults = [] ∧ ∀ client method,
      s.worker = .dispatch (.request client method) →
        ∃ ops, Asks method ops ∧
          ∀ log, Represents s.storage log → Meets specLog Admissible log ops
  | _ => True

theorem initial_serial : Serial {} :=
  ⟨[], [], fresh_represents, Or.inl ⟨by decide, rfl⟩, rfl⟩

theorem serial_frame {s s' : State} (serial : Serial s) (storage : s'.storage = s.storage)
    (cursor : s'.sweepCursor = s.sweepCursor) (executed : s'.executed = s.executed) : Serial s' := by
  unfold Serial
  rw [storage, cursor, executed]
  exact serial

theorem execute_serial {s : State} (serial : Serial s) {method : Method} {ops : List Op}
    (asks : Asks method ops)
    (ok : ∀ log, Represents s.storage log → Meets specLog Admissible log ops) (client : Nat)
    (worker : WorkerPc) :
    Serial { s with storage := (dispatch s.storage [] method).1,
                    executed := s.executed ++ [(client, method)], worker := worker } := by
  obtain ⟨a, rest, rep, stands, logged⟩ := serial
  have after := (run_refines rep (ok _ rep)).2
  have grown := contents_specRun (a ++ rest) ops
  -- the operation appends behind the entries of the pass and changes flags only in them
  let log := specRun (a ++ rest) ops
  have front : contents a = contents (log.take a.length) := by
    have taken := congrArg (List.take a.length) grown
    rw [contents_append, List.append_assoc, List.take_left' (by simp [contents])] at taken
    rw [← taken]
    simp [contents, log, List.map_take]
  refine ⟨log.take a.length, log.drop a.length, ?_, stands_of_contents stands front, ?_⟩
  · rw [List.take_append_drop, dispatch_run rep asks (ok _ rep)]
    exact after
  · rw [List.take_append_drop, grown, logged, ← written_appended asks, List.flatMap_append,
      List.flatMap_singleton]

theorem sweep_serial {s : State} (serial : Serial s) (nowMs lastSweepUs : Int) (worker : WorkerPc) :
    Serial { s with storage := (sweepExpired nowMs s.storage s.sweepCursor []).1,
                    sweepCursor := (sweepExpired nowMs s.storage s.sweepCursor []).2.1,
                    lastSweepUs := lastSweepUs, worker := worker } := by
  obtain ⟨a, rest, rep, stands, logged⟩ := serial
  obtain ⟨s', swept, rep'⟩ := sweepExpired_represents nowMs rep stands
  let chunk := (rest.take kSweepBudget).map (expire nowMs)
  have same : contents (a ++ chunk) = contents (a ++ rest.take kSweepBudget) := by
    rw [contents_append, contents_append, contents_expire]
  have whole : contents (a ++ chunk ++ rest.drop kSweepBudget) = contents (a ++ rest) := by
    rw [contents_append, same, ← contents_append, List.append_assoc, List.take_append_drop]
  rcases cursorAfter_stands kSweepBudget a rest with behind | ⟨_, front⟩
  · refine ⟨a ++ chunk, rest.drop kSweepBudget, ?_, ?_, whole.trans logged⟩
    · simpa only [swept] using rep'
    · simp only [swept]
      exact stands_of_contents behind same.symm
  · refine ⟨[], a ++ chunk ++ rest.drop kSweepBudget, ?_, ?_, whole.trans logged⟩
    · simp only [swept, List.nil_append]
      exact rep'
    · simpa only [swept] using front

theorem work_serial {s : State} (serial : Serial s) {clockUs : Int} {faults : List (Option Nat)}
    (orderly : Orderly s (.work clockUs faults)) : Serial (workStep s clockUs faults) := by
  obtain ⟨rfl, asked⟩ := orderly
  unfold workStep
  cases place : s.worker with
  | dispatch operation =>
    cases operation with
    | stop caller => exact serial_frame serial rfl rfl rfl
    | request client method =>
      obtain ⟨ops, asks, ok⟩ := asked client method place
      exact execute_serial serial asks ok client _
  | signal client method =>
    dsimp only
    split <;> exact serial_frame serial rfl rfl rfl
  | sweep nowUs => exact sweep_serial serial _ nowUs _
  | _ => exact serial_frame serial rfl rfl rfl

theorem next_serial (s : State) (a : Act) (serial : Serial s) (orderly : Orderly s a) :
    Serial (next s a) := by
  cases a with
  | start =>
    simp only [next, startStep]
    split <;> exact serial_frame serial rfl rfl rfl
  | work clockUs faults => exact work_serial serial orderly
  | dequeue i =>
    simp only [next, dequeueStep]
    split
    · split <;> exact serial_frame serial rfl rfl rfl
    · exact serial
  | timeout =>
    simp only [next, timeoutStep]
    split <;> exact serial_frame serial rfl rfl rfl
  | stop caller =>
    simp only [next, stopStep]
    split
    all_goals first
      | exact serial_frame serial rfl rfl rfl
      | split <;> exact serial_frame serial rfl rfl rfl
  | call client method =>
    simp only [next, callStep]
    split <;> exact serial_frame serial rfl rfl rfl
  | client client =>
    simp only [next, clientStep]
    split
    · exact serial
    · exact serial_frame serial rfl rfl rfl
    · split <;> exact serial_frame serial rfl rfl rfl
  | setSweepInterval us =>
    simp only [next, setSweepInterval]
    split <;> exact serial_frame serial rfl rfl rfl

/- Under every interleaving the storage is the log of the executed operations:
   their appends in the order of execution, whatever was swept or removed. -/
theorem worker_serializes (acts : List Act) (orderly : Meets next Orderly {} acts) :
    ∀ s ∈ states next {} acts, ∃ log, Represents s.storage log ∧
      contents log = s.executed.flatMap fun x => written x.2 := by
  intro s reached
  obtain ⟨a, rest, rep, _, logged⟩ := invariant_along next_serial initial_serial orderly s reached
  exact ⟨a ++ rest, rep, logged⟩

end TinyMqWorkerRuns
