import TinyMq.Lib.Machines
import TinyMq.Storage.Sweep
import TinyMq.Storage.Worker

/-!
`ConcurrentLinearStorage` as threads over shared flags: one caller of `start()`,
the worker's `run()`, any number of callers of `stop()` and of clients with
storage operations. Every read and write of a flag, every enqueue and dequeue,
every event set and wait, and the join is a step of its own; a step that is not
enabled changes nothing. The worker reads the clock; between two operations it
sweeps the expired records when the interval has passed. The operation queue is FIFO for each producing thread
only. `_isRunning` is false at first (C++20).
-/
namespace TinyMqWorkerHandshake
open TinyMqTom TinyMqStorage TinyMqRefinement TinyMqSweep TinyMqWorker Machines

/-- An entry of `_operations`. The STOP operation lives in its `stop()` call, a
    synchronous operation in its client's call, an asynchronous one on the heap. -/
inductive Operation where
  | stop (caller : Nat)
  | request (client : Nat) (method : Method)
  deriving DecidableEq

def Operation.producer : Operation → Nat ⊕ Nat
  | stop caller => .inl caller
  | request client _ => .inr client

def Method.async : Method → Bool
  | .removeAsync _ => true
  | _ => false

inductive StartPc where
  | readRunning
  | spawn
  | setStarted
  | returned
  deriving DecidableEq

inductive StopPc where
  | exchange
  | readStarted
  | readRunning
  | enqueue
  | waitEvent
  | join
  | returned
  deriving DecidableEq

inductive ClientPc where
  | idle
  | enqueue (method : Method)
  | waitEvent
  deriving DecidableEq

inductive WorkerPc where
  | absent
  | setRunning
  | loopTest
  | dequeue
  | dispatch (operation : Operation)
  | stopSignal (caller : Nat)
  | signal (client : Nat) (method : Method)
  | sweepTest
  | sweep (nowUs : Int)
  | exited
  deriving DecidableEq

structure State where
  started : Bool := false
  isRunning : Bool := false
  stopRequested : Bool := false
  starter : StartPc := .readRunning
  worker : WorkerPc := .absent
  stops : Nat → StopPc := fun _ => .exchange
  clients : Nat → ClientPc := fun _ => .idle
  operations : List Operation := []
  stopEvent : Nat → Bool := fun _ => false
  clientEvent : Nat → Bool := fun _ => false
  storage : Storage := fresh
  sweepIntervalUs : Int := 1000000
  lastSweepUs : Int := 0
  sweepCursor : SweepCursor := {}
  executed : List (Nat × Method) := []

inductive Act where
  | start
  | work (clockUs : Int) (faults : List (Option Nat))
  | dequeue (i : Nat)
  | timeout
  | stop (caller : Nat)
  | call (client : Nat) (method : Method)
  | client (client : Nat)
  | setSweepInterval (us : Int)

def startStep (s : State) : State :=
  match s.starter with
  | .readRunning => { s with starter := if s.isRunning then .returned else .spawn }
  | .spawn => { s with worker := .setRunning, starter := .setStarted }
  | .setStarted => { s with started := true, starter := .returned }
  | .returned => s

/-- One step of `run()`. An exception of an operation or of the sweep is logged only. -/
def workStep (s : State) (clockUs : Int) (faults : List (Option Nat)) : State :=
  match s.worker with
  | .absent | .dequeue | .exited => s
  | .setRunning => { s with isRunning := true, lastSweepUs := clockUs, worker := .loopTest }
  | .loopTest => { s with worker := if s.isRunning then .dequeue else .exited }
  | .dispatch (.stop caller) => { s with isRunning := false, worker := .stopSignal caller }
  | .stopSignal caller =>
    { s with stopEvent := Function.update s.stopEvent caller true, worker := .exited }
  | .dispatch (.request client method) =>
    { s with storage := (dispatch s.storage faults method).1,
             executed := s.executed ++ [(client, method)], worker := .signal client method }
  | .signal client method =>
    if Method.async method then { s with worker := .sweepTest }
    else { s with clientEvent := Function.update s.clientEvent client true, worker := .sweepTest }
  | .sweepTest =>
    { s with worker := if s.sweepIntervalUs ≤ clockUs - s.lastSweepUs then .sweep clockUs else .loopTest }
  | .sweep nowUs =>
    -- the sweep reads the clock once more; the deadline keeps the first reading
    let swept := sweepExpired (clockUs.tdiv 1000) s.storage s.sweepCursor faults
    { s with storage := swept.1, sweepCursor := swept.2.1, lastSweepUs := nowUs, worker := .loopTest }

/-- `wait_dequeue_timed` returns an operation that is the oldest of its producer. -/
def dequeueStep (s : State) (i : Nat) : State :=
  match s.worker, s.operations[i]? with
  | .dequeue, some operation =>
    if (s.operations.take i).all (·.producer ≠ operation.producer) then
      { s with operations := s.operations.eraseIdx i, worker := .dispatch operation }
    else s
  | _, _ => s

def timeoutStep (s : State) : State :=
  if s.worker = .dequeue then { s with worker := .sweepTest } else s

/-- The next step of one `stop()` call; the calls come after `start()` has returned. -/
def stopStep (s : State) (caller : Nat) : State :=
  let goto pc := Function.update s.stops caller pc
  match s.stops caller with
  | .exchange =>
    if s.starter = .returned then
      { s with stopRequested := true,
               stops := goto (if s.stopRequested then .returned else .readStarted) }
    else s
  | .readStarted => { s with stops := goto (if s.started then .readRunning else .returned) }
  | .readRunning => { s with stops := goto (if s.isRunning then .enqueue else .join) }
  | .enqueue =>
    { s with operations := s.operations ++ [.stop caller], stops := goto .waitEvent }
  | .waitEvent => if s.stopEvent caller then { s with stops := goto .join } else s
  | .join => if s.worker = .exited then { s with stops := goto .returned } else s
  | .returned => s

def callStep (s : State) (client : Nat) (method : Method) : State :=
  if s.clients client = .idle then
    { s with clients := Function.update s.clients client (.enqueue method),
             clientEvent := Function.update s.clientEvent client false }
  else s

def clientStep (s : State) (client : Nat) : State :=
  match s.clients client with
  | .idle => s
  | .enqueue method =>
    { s with operations := s.operations ++ [.request client method],
             clients := Function.update s.clients client
               (if Method.async method then .idle else .waitEvent) }
  | .waitEvent =>
    if s.clientEvent client then { s with clients := Function.update s.clients client .idle } else s

def setSweepInterval (s : State) (us : Int) : State :=
  if 0 < us then { s with sweepIntervalUs := us } else s

def next (s : State) : Act → State
  | .start => startStep s
  | .work clockUs faults => workStep s clockUs faults
  | .dequeue i => dequeueStep s i
  | .timeout => timeoutStep s
  | .stop caller => stopStep s caller
  | .call client method => callStep s client method
  | .client client => clientStep s client
  | .setSweepInterval us => setSweepInterval s us

def WorkerPc.looping : WorkerPc → Prop
  | .loopTest | .dequeue | .dispatch (.request _ _) | .signal _ _ | .sweepTest | .sweep _ => True
  | _ => False

def WorkerPc.stopSeen : WorkerPc → Prop
  | .dispatch (.stop _) | .stopSignal _ | .exited => True
  | _ => False

def StopQueued (s : State) : Prop := ∃ caller, Operation.stop caller ∈ s.operations

/-- A `stop()` call waits for a worker that runs on and was not told to stop. -/
def Orphaned (s : State) : Prop :=
  (∃ caller, s.stops caller = .waitEvent ∨ s.stops caller = .join) ∧
    s.worker.looping ∧ s.isRunning = true ∧ ¬ StopQueued s ∧ ¬ s.worker.stopSeen

/-- A `stop()` call reads `_isRunning` only after the worker has set it. -/
def ReadsAfterSet (s : State) : Act → Prop
  | .stop caller => s.stops caller = .readRunning →
      s.worker ≠ .absent ∧ s.worker ≠ .setRunning
  | _ => True

/-- What the handshake keeps while no `stop()` reads too early. -/
structure Told (s : State) : Prop where
  spawned : s.starter = .readRunning ∨ s.starter = .spawn → s.worker = .absent
  running : s.isRunning = false →
    s.worker = .absent ∨ s.worker = .setRunning ∨ s.worker.stopSeen
  waiting : ∀ i, s.stops i = .waitEvent → StopQueued s ∨ s.worker.stopSeen
  joining : ∀ i, s.stops i = .join → s.worker.stopSeen
  signalled : ∀ i, s.stopEvent i = true → s.worker.stopSeen

theorem initial_told : Told {} where
  spawned := fun _ => rfl
  running := fun _ => Or.inl rfl
  waiting := by intro i wait; cases wait
  joining := by intro i join; cases join
  signalled := by intro i set; cases set

theorem told_safe {s : State} (told : Told s) : ¬ Orphaned s := by
  rintro ⟨⟨caller, wait | join⟩, _, _, unqueued, unseen⟩
  · rcases told.waiting caller wait with queued | seen
    · exact unqueued queued
    · exact unseen seen
  · exact unseen (told.joining caller join)

/- A step of the worker or of a client: the other threads' places stay, and a
   STOP that was queued or seen stays so. -/
theorem told_frame {s s' : State} (told : Told s) (starter : s'.starter = s.starter)
    (stops : s'.stops = s.stops) (absent : s.worker = .absent → s'.worker = .absent)
    (running : s'.isRunning = false →
      s'.worker = .absent ∨ s'.worker = .setRunning ∨ s'.worker.stopSeen)
    (seen : s.worker.stopSeen → s'.worker.stopSeen)
    (queued : StopQueued s → StopQueued s' ∨ s'.worker.stopSeen)
    (events : ∀ i, s'.stopEvent i = true → s.stopEvent i = true ∨ s'.worker.stopSeen) :
    Told s' where
  spawned := by
    intro early
    rw [starter] at early
    exact absent (told.spawned early)
  running := running
  waiting := by
    intro i wait
    rw [stops] at wait
    rcases told.waiting i wait with here | done
    · exact queued here
    · exact Or.inr (seen done)
  joining := by
    intro i join
    rw [stops] at join
    exact seen (told.joining i join)
  signalled := by
    intro i set
    rcases events i set with old | done
    · exact seen (told.signalled i old)
    · exact done

theorem start_told {s : State} (told : Told s) : Told (startStep s) := by
  unfold startStep
  cases place : s.starter with
  | readRunning =>
    have absent := told.spawned (Or.inl place)
    exact ⟨fun _ => absent, told.running, told.waiting, told.joining, told.signalled⟩
  | spawn =>
    have absent := told.spawned (Or.inr place)
    have unseen : ¬ s.worker.stopSeen := by simp [absent, WorkerPc.stopSeen]
    refine ⟨by simp, fun _ => Or.inr (Or.inl rfl), ?_, ?_, ?_⟩
    · intro i wait
      rcases told.waiting i wait with queued | seen
      · exact Or.inl queued
      · exact absurd seen unseen
    · intro i join
      exact absurd (told.joining i join) unseen
    · intro i set
      exact absurd (told.signalled i set) unseen
  | setStarted => exact ⟨by simp, told.running, told.waiting, told.joining, told.signalled⟩
  | returned => exact told

theorem looping_unseen {pc : WorkerPc} (loop : pc.looping) : ¬ pc.stopSeen := by
  cases pc with
  | dispatch operation => cases operation <;> simp_all [WorkerPc.looping, WorkerPc.stopSeen]
  | _ => simp_all [WorkerPc.looping, WorkerPc.stopSeen]

theorem Told.on {s : State} (told : Told s) (loop : s.worker.looping) : s.isRunning = true := by
  cases flag : s.isRunning with
  | true => rfl
  | false =>
    rcases told.running flag with absent | early | seen
    · simp [absent, WorkerPc.looping] at loop
    · simp [early, WorkerPc.looping] at loop
    · exact absurd seen (looping_unseen loop)

theorem work_told {s : State} (told : Told s) (clockUs : Int) (faults : List (Option Nat)) :
    Told (workStep s clockUs faults) := by
  unfold workStep
  cases place : s.worker with
  | absent => exact told
  | dequeue => exact told
  | exited => exact told
  | setRunning =>
    exact told_frame told rfl rfl (by simp [place]) (by simp) (by simp [place, WorkerPc.stopSeen])
      Or.inl fun _ => Or.inl
  | loopTest =>
    have on := told.on (by simp [place, WorkerPc.looping])
    exact told_frame told rfl rfl (by simp [place]) (by simp [on])
      (by simp [place, WorkerPc.stopSeen]) Or.inl fun _ => Or.inl
  | sweepTest =>
    have on := told.on (by simp [place, WorkerPc.looping])
    exact told_frame told rfl rfl (by simp [place]) (by simp [on])
      (by simp [place, WorkerPc.stopSeen]) Or.inl fun _ => Or.inl
  | sweep nowUs =>
    have on := told.on (by simp [place, WorkerPc.looping])
    exact told_frame told rfl rfl (by simp [place]) (by simp [on])
      (by simp [place, WorkerPc.stopSeen]) Or.inl fun _ => Or.inl
  | stopSignal caller =>
    exact told_frame told rfl rfl (by simp [place]) (by simp [WorkerPc.stopSeen])
      (by simp [WorkerPc.stopSeen]) Or.inl (by simp [WorkerPc.stopSeen])
  | signal client method =>
    have on := told.on (by simp [place, WorkerPc.looping])
    dsimp only
    split <;>
      exact told_frame told rfl rfl (by simp [place]) (by simp [on])
        (by simp [place, WorkerPc.stopSeen]) Or.inl fun _ => Or.inl
  | dispatch operation =>
    cases operation with
    | stop caller =>
      exact told_frame told rfl rfl (by simp [place]) (by simp [WorkerPc.stopSeen])
        (by simp [WorkerPc.stopSeen]) Or.inl fun _ => Or.inl
    | request client method =>
      have on := told.on (by simp [place, WorkerPc.looping])
      exact told_frame told rfl rfl (by simp [place]) (by simp [on])
        (by simp [place, WorkerPc.stopSeen]) Or.inl fun _ => Or.inl

theorem dequeue_told {s : State} (told : Told s) (i : Nat) : Told (dequeueStep s i) := by
  unfold dequeueStep
  cases place : s.worker with
  | dequeue =>
    cases found : s.operations[i]? with
    | none => exact told
    | some operation =>
      have on := told.on (by simp [place, WorkerPc.looping])
      dsimp only
      split
      · refine told_frame told rfl rfl (by simp [place]) (by simp [on])
          (by simp [place, WorkerPc.stopSeen]) ?_ fun _ => Or.inl
        rintro ⟨caller, member⟩
        by_cases same : operation = .stop caller
        · exact Or.inr (by simp [same, WorkerPc.stopSeen])
        · obtain ⟨j, at_j⟩ := List.mem_iff_getElem?.mp member
          have other : j ≠ i := by
            intro equal
            rw [equal, found] at at_j
            exact same (Option.some.inj at_j)
          exact Or.inl ⟨caller, List.mem_eraseIdx_iff_getElem?.mpr ⟨j, other, at_j⟩⟩
      · exact told
  | _ => exact told

theorem timeout_told {s : State} (told : Told s) : Told (timeoutStep s) := by
  unfold timeoutStep
  split
  · rename_i place
    have on := told.on (by simp [place, WorkerPc.looping])
    exact told_frame told rfl rfl (by simp [place]) (by simp [on])
      (by simp [place, WorkerPc.stopSeen]) Or.inl fun _ => Or.inl
  · exact told

theorem queued_snoc {s : State} (queued : StopQueued s) (operation : Operation) :
    ∃ caller, Operation.stop caller ∈ s.operations ++ [operation] := by
  obtain ⟨caller, member⟩ := queued
  exact ⟨caller, List.mem_append_left _ member⟩

theorem call_told {s : State} (told : Told s) (client : Nat) (method : Method) :
    Told (callStep s client method) := by
  unfold callStep
  split
  · exact told_frame told rfl rfl id told.running id Or.inl fun _ => Or.inl
  · exact told

theorem client_told {s : State} (told : Told s) (client : Nat) : Told (clientStep s client) := by
  unfold clientStep
  cases s.clients client with
  | idle => exact told
  | enqueue method =>
    exact told_frame told rfl rfl id told.running id (fun queued => Or.inl (queued_snoc queued _))
      fun _ => Or.inl
  | waitEvent =>
    dsimp only
    split
    · exact told_frame told rfl rfl id told.running id Or.inl fun _ => Or.inl
    · exact told

theorem interval_told {s : State} (told : Told s) (us : Int) : Told (setSweepInterval s us) := by
  unfold setSweepInterval
  split
  · exact told_frame told rfl rfl id told.running id Or.inl fun _ => Or.inl
  · exact told

theorem told_goto {s : State} (told : Told s) (caller : Nat) (pc : StopPc) {requested : Bool}
    {operations : List Operation}
    (grown : StopQueued s → ∃ c, Operation.stop c ∈ operations)
    (wait : pc = .waitEvent → (∃ c, Operation.stop c ∈ operations) ∨ s.worker.stopSeen)
    (join : pc = .join → s.worker.stopSeen) :
    Told { s with stopRequested := requested, operations := operations,
                  stops := Function.update s.stops caller pc } where
  spawned := told.spawned
  running := told.running
  waiting := by
    intro i here
    by_cases mine : i = caller
    · subst mine
      exact wait (by simpa using here)
    · simp only [Function.update_of_ne mine] at here
      rcases told.waiting i here with queued | seen
      · exact Or.inl (grown queued)
      · exact Or.inr seen
  joining := by
    intro i here
    by_cases mine : i = caller
    · subst mine
      exact join (by simpa using here)
    · simp only [Function.update_of_ne mine] at here
      exact told.joining i here
  signalled := told.signalled

theorem stop_told {s : State} (told : Told s) (caller : Nat)
    (timely : ReadsAfterSet s (.stop caller)) : Told (stopStep s caller) := by
  unfold stopStep
  cases place : s.stops caller with
  | exchange =>
    dsimp only
    split
    · refine told_goto told caller _ id ?_ ?_ <;> cases s.stopRequested <;> simp
    · exact told
  | readStarted => refine told_goto told caller _ id ?_ ?_ <;> cases s.started <;> simp
  | readRunning =>
    refine told_goto told caller _ id ?_ ?_
    · cases s.isRunning <;> simp
    · cases flag : s.isRunning with
      | true => simp
      | false =>
        intro _
        obtain ⟨present, set⟩ := timely place
        rcases told.running flag with absent | early | seen
        · exact absurd absent present
        · exact absurd early set
        · exact seen
  | enqueue =>
    refine told_goto told caller _ (fun queued => queued_snoc queued _) ?_ (by simp)
    intro _
    exact Or.inl ⟨caller, by simp⟩
  | waitEvent =>
    dsimp only
    split
    · rename_i set
      exact told_goto told caller _ id (by simp) fun _ => told.signalled caller set
    · exact told
  | join =>
    dsimp only
    split
    · exact told_goto told caller _ id (by simp) (by simp)
    · exact told
  | returned => exact told

theorem next_told (s : State) (a : Act) (told : Told s) (timely : ReadsAfterSet s a) :
    Told (next s a) := by
  cases a with
  | start => exact start_told told
  | work clockUs faults => exact work_told told clockUs faults
  | dequeue i => exact dequeue_told told i
  | timeout => exact timeout_told told
  | stop caller => exact stop_told told caller timely
  | call client method => exact call_told told client method
  | client client => exact client_told told client
  | setSweepInterval us => exact interval_told told us

/- No run in which every `stop()` reads `_isRunning` after the worker set it
   reaches a state with an orphaned wait. -/
theorem stop_never_orphaned (acts : List Act) (timely : Meets next ReadsAfterSet {} acts) :
    ∀ s ∈ states next {} acts, ¬ Orphaned s := by
  intro s reached
  exact told_safe (invariant_along next_told initial_told timely s reached)

def orderlyRun : List Act :=
  [.start, .start, .work 0 [], .start, .work 0 [], .stop 0, .stop 0, .stop 0, .stop 0, .dequeue 0,
    .work 0 [], .work 0 [], .stop 0, .stop 0]

theorem stop_never_orphaned_orderly :
    (∀ s ∈ states next {} orderlyRun, ¬ Orphaned s) ∧
      (orderlyRun.foldl next {}).stops 0 = .returned := by
  refine ⟨stop_never_orphaned orderlyRun ?_, by decide⟩
  have set : ∀ {P : Prop}, P → WorkerPc.dequeue ≠ .absent ∧ WorkerPc.dequeue ≠ .setRunning :=
    fun _ => ⟨by decide, by decide⟩
  have gone : ∀ {P : Prop}, P → WorkerPc.exited ≠ .absent ∧ WorkerPc.exited ≠ .setRunning :=
    fun _ => ⟨by decide, by decide⟩
  exact ⟨trivial, trivial, trivial, trivial, trivial, set, set, set, set, trivial, trivial,
    trivial, gone, gone, trivial⟩

/-- The first `stop()` call is in the join, no other will send a STOP, and the worker loops. -/
structure Stranded (s : State) (caller : Nat) : Prop where
  joined : s.stops caller = .join
  others : ∀ i, i ≠ caller → s.stops i = .exchange ∨ s.stops i = .returned
  requested : s.stopRequested = true
  starter : s.starter = .returned
  unqueued : ¬ StopQueued s
  looping : s.worker.looping
  running : s.isRunning = true

theorem stranded_orphaned {s : State} {caller : Nat} (stranded : Stranded s caller) :
    Orphaned s := by
  exact ⟨⟨caller, Or.inr stranded.joined⟩, stranded.looping, stranded.running,
    stranded.unqueued, looping_unseen stranded.looping⟩

theorem unqueued_snoc {s : State} (unqueued : ¬ StopQueued s) (client : Nat) (method : Method) :
    ¬ ∃ caller, Operation.stop caller ∈ s.operations ++ [.request client method] := by
  rintro ⟨caller, member⟩
  rcases List.mem_append.mp member with old | new
  · exact unqueued ⟨caller, old⟩
  · simp at new

theorem stranded_frame {s s' : State} {caller : Nat} (stranded : Stranded s caller)
    (stops : s'.stops = s.stops) (requested : s'.stopRequested = s.stopRequested)
    (starter : s'.starter = s.starter) (running : s'.isRunning = s.isRunning)
    (unqueued : ¬ StopQueued s') (looping : s'.worker.looping) : Stranded s' caller where
  joined := by
    rw [stops]
    exact stranded.joined
  others := by
    rw [stops]
    exact stranded.others
  requested := requested.trans stranded.requested
  starter := starter.trans stranded.starter
  unqueued := unqueued
  looping := looping
  running := running.trans stranded.running

theorem start_stranded {s : State} {caller : Nat} (stranded : Stranded s caller) :
    Stranded (startStep s) caller := by
  simp only [startStep, stranded.starter]
  exact stranded

theorem work_stranded {s : State} {caller : Nat} (stranded : Stranded s caller) (clockUs : Int)
    (faults : List (Option Nat)) : Stranded (workStep s clockUs faults) caller := by
  have looping := stranded.looping
  unfold workStep
  cases place : s.worker with
  | dispatch operation =>
    cases operation with
    | stop c => simp [place, WorkerPc.looping] at looping
    | request c m => exact stranded_frame stranded rfl rfl rfl rfl stranded.unqueued trivial
  | signal c m =>
    dsimp only
    split <;> exact stranded_frame stranded rfl rfl rfl rfl stranded.unqueued trivial
  | loopTest =>
    refine stranded_frame stranded rfl rfl rfl rfl stranded.unqueued ?_
    simp [stranded.running, WorkerPc.looping]
  | dequeue => exact stranded
  | sweepTest =>
    refine stranded_frame stranded rfl rfl rfl rfl stranded.unqueued ?_
    dsimp only
    split <;> trivial
  | sweep nowUs => exact stranded_frame stranded rfl rfl rfl rfl stranded.unqueued trivial
  | absent => simp [place, WorkerPc.looping] at looping
  | setRunning => simp [place, WorkerPc.looping] at looping
  | stopSignal c => simp [place, WorkerPc.looping] at looping
  | exited => simp [place, WorkerPc.looping] at looping

theorem dequeue_stranded {s : State} {caller : Nat} (stranded : Stranded s caller) (i : Nat) :
    Stranded (dequeueStep s i) caller := by
  unfold dequeueStep
  split
  · rename_i operation _ found
    split
    · refine stranded_frame stranded rfl rfl rfl rfl ?_ ?_
      · rintro ⟨c, member⟩
        exact stranded.unqueued ⟨c, List.mem_of_mem_eraseIdx member⟩
      · cases operation with
        | stop c => exact absurd ⟨c, List.mem_of_getElem? found⟩ stranded.unqueued
        | request c m => trivial
    · exact stranded
  · exact stranded

theorem timeout_stranded {s : State} {caller : Nat} (stranded : Stranded s caller) :
    Stranded (timeoutStep s) caller := by
  unfold timeoutStep
  split
  · exact stranded_frame stranded rfl rfl rfl rfl stranded.unqueued trivial
  · exact stranded

theorem stop_stranded {s : State} {caller : Nat} (stranded : Stranded s caller) (c : Nat) :
    Stranded (stopStep s c) caller := by
  unfold stopStep
  by_cases mine : c = caller
  · subst mine
    have stays : s.worker ≠ .exited := by
      intro gone
      have looping := stranded.looping
      simp [gone, WorkerPc.looping] at looping
    simp only [stranded.joined, if_neg stays]
    exact stranded
  · rcases stranded.others c mine with first | done
    · simp only [first, stranded.starter, stranded.requested, if_true]
      refine ⟨?_, ?_, rfl, rfl, stranded.unqueued, stranded.looping, stranded.running⟩
      · simp only [Function.update_of_ne (Ne.symm mine)]
        exact stranded.joined
      · intro i other
        by_cases same : i = c
        · subst same
          simp
        · simp only [Function.update_of_ne same]
          exact stranded.others i other
    · simp only [done]
      exact stranded

theorem client_stranded {s : State} {caller : Nat} (stranded : Stranded s caller) (c : Nat) :
    Stranded (clientStep s c) caller := by
  unfold clientStep
  cases s.clients c with
  | idle => exact stranded
  | enqueue m =>
    exact stranded_frame stranded rfl rfl rfl rfl (unqueued_snoc stranded.unqueued c m)
      stranded.looping
  | waitEvent =>
    dsimp only
    split
    · exact stranded_frame stranded rfl rfl rfl rfl stranded.unqueued stranded.looping
    · exact stranded

theorem stranded_next {s : State} {caller : Nat} (stranded : Stranded s caller) (a : Act) :
    Stranded (next s a) caller := by
  cases a with
  | start => exact start_stranded stranded
  | work clockUs faults => exact work_stranded stranded clockUs faults
  | dequeue i => exact dequeue_stranded stranded i
  | timeout => exact timeout_stranded stranded
  | stop c => exact stop_stranded stranded c
  | call c m =>
    simp only [next, callStep]
    split
    · exact stranded_frame stranded rfl rfl rfl rfl stranded.unqueued stranded.looping
    · exact stranded
  | client c => exact client_stranded stranded c
  | setSweepInterval us =>
    simp only [next, setSweepInterval]
    split
    · exact stranded_frame stranded rfl rfl rfl rfl stranded.unqueued stranded.looping
    · exact stranded

theorem stranded_forever {s : State} {caller : Nat} (stranded : Stranded s caller)
    (acts : List Act) : ∀ t ∈ states next s acts, Orphaned t := by
  have always : ∀ t a, Stranded t caller → Stranded (next t a) caller :=
    fun _ a here => stranded_next here a
  intro t reached
  exact stranded_orphaned (invariant_reached always stranded acts t reached)

/-- `start()` returns before the worker runs, and `stop()` overtakes the worker. -/
def overtakenRun : List Act :=
  [.start, .start, .start, .stop 0, .stop 0, .stop 0, .work 0 []]

theorem overtaken_stop_stranded : Stranded (overtakenRun.foldl next {}) 0 := by
  refine ⟨by decide, ?_, rfl, rfl, ?_, trivial, rfl⟩
  · intro i other
    refine Or.inl ?_
    simp [overtakenRun, next, startStep, stopStep, workStep, other]
  · rintro ⟨caller, member⟩
    cases member

theorem overtaken_stop_orphaned : Orphaned (overtakenRun.foldl next {}) :=
  stranded_orphaned overtaken_stop_stranded

end TinyMqWorkerHandshake
