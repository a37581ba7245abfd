import Mathlib.Data.List.Infix
import TinyMq.Storage.WorkerHandshake

/-!
What becomes of the operations around a `stop()` of a running
`ConcurrentLinearStorage`: which were enqueued before the call, which of them the
worker executed before it left `run()`, and whether a synchronous caller is left
waiting. A call that returns without an enqueue (an empty batch, a record without
a location) takes no step.
-/
namespace TinyMqStopQueue
open TinyMqTom TinyMqStorage TinyMqRefinement TinyMqSweep TinyMqWorker TinyMqWorkerHandshake
open Machines

abbrev Request := Nat × Method

def running (storage : Storage) (sweepIntervalUs lastSweepUs : Int) (cursor : SweepCursor) : State :=
  { started := true, isRunning := true, starter := .returned, worker := .loopTest,
    storage := storage, sweepIntervalUs := sweepIntervalUs, lastSweepUs := lastSweepUs,
    sweepCursor := cursor }

/-- A state with its history: the requests in the order of their enqueues, those enqueued
    before the first `stop()` call, and how many of these are still queued. They are the
    first ones of the queue. -/
structure Watched where
  state : State
  enqueued : List Request := []
  before : Option (List Request) := none
  old : Nat := 0

def Watched.calls (w : Watched) (caller : Nat) : Bool :=
  w.before = none ∧ w.state.stops caller = .exchange ∧ w.state.starter = .returned

def Watched.next (w : Watched) (a : Act) : Watched :=
  let state := TinyMqWorkerHandshake.next w.state a
  match a with
  | .client c =>
    match w.state.clients c with
    | .enqueue m => { w with state := state, enqueued := w.enqueued ++ [(c, m)] }
    | _ => { w with state := state }
  | .stop caller =>
    if w.calls caller then
      { w with state := state, before := some w.enqueued, old := w.state.operations.length }
    else { w with state := state }
  | .dequeue i =>
    let taken := i < w.old ∧ state.operations.length < w.state.operations.length
    { w with state := state, old := if taken then w.old - 1 else w.old }
  | _ => { w with state := state }

/-- The request the worker has taken and not yet executed. -/
def handed : WorkerPc → List Request
  | .dispatch (.request c m) => [(c, m)]
  | _ => []

/-- The request whose caller the worker has not yet woken. -/
def serving : WorkerPc → Option Request
  | .dispatch (.request c m) | .signal c m => some (c, m)
  | _ => none

def requestOf : Operation → Option Request
  | .request c m => some (c, m)
  | .stop _ => none

def requests (operations : List Operation) : List Request := operations.filterMap requestOf

structure Up (s : State) : Prop where
  starter : s.starter = .returned
  worker : (s.worker.looping ∧ s.isRunning = true) ∨ s.worker.stopSeen

/-- Everything a step can do to the operations and to those who wait for them. -/
inductive Effect (s : State) : Act → State → Prop where
  | frame (a : Act) (s' : State) (operations : s'.operations = s.operations)
      (executed : s'.executed = s.executed) (hand : handed s'.worker = handed s.worker)
      (served : serving s'.worker = serving s.worker)
      (waits : ∀ c, s'.clients c = .waitEvent →
        s.clients c = .waitEvent ∧ s'.clientEvent c = s.clientEvent c)
      (seen : s'.worker.stopSeen ↔ s.worker.stopSeen) : Effect s a s'
  | takes (i : Nat) (operation : Operation) (at_ : s.worker = .dequeue)
      (found : s.operations[i]? = some operation)
      (first : ∀ x ∈ s.operations.take i, x.producer ≠ operation.producer) :
      Effect s (.dequeue i)
        { s with operations := s.operations.eraseIdx i, worker := .dispatch operation }
  | runs (c : Nat) (m : Method) (clockUs : Int) (faults : List (Option Nat)) (storage : Storage)
      (at_ : s.worker = .dispatch (.request c m)) :
      Effect s (.work clockUs faults)
        { s with storage := storage, executed := s.executed ++ [(c, m)], worker := .signal c m }
  | wakes (c : Nat) (m : Method) (clockUs : Int) (faults : List (Option Nat)) (event : Nat → Bool)
      (at_ : s.worker = .signal c m)
      (set : event = if Method.async m then s.clientEvent
        else Function.update s.clientEvent c true) :
      Effect s (.work clockUs faults) { s with clientEvent := event, worker := .sweepTest }
  | sends (c : Nat) (m : Method) (at_ : s.clients c = .enqueue m) :
      Effect s (.client c)
        { s with operations := s.operations ++ [.request c m],
                 clients := Function.update s.clients c
                   (if Method.async m then .idle else .waitEvent) }
  | sendsStop (caller : Nat) (at_ : s.stops caller = .enqueue) :
      Effect s (.stop caller)
        { s with operations := s.operations ++ [.stop caller],
                 stops := Function.update s.stops caller .waitEvent }

theorem Up.frame {s s' : State} (up : Up s) (starter : s'.starter = s.starter)
    (worker : s'.worker = s.worker) (flag : s'.isRunning = s.isRunning) : Up s' := by
  refine ⟨starter.trans up.starter, ?_⟩
  rw [worker, flag]
  exact up.worker

theorem Up.on {s : State} (up : Up s) (loop : s.worker.looping) : s.isRunning = true := by
  rcases up.worker with ⟨-, on⟩ | seen
  · exact on
  · exact absurd seen (looping_unseen loop)

theorem Effect.quiet {s s' : State} {a : Act} (operations : s'.operations = s.operations)
    (executed : s'.executed = s.executed) (worker : s'.worker = s.worker)
    (waits : ∀ c, s'.clients c = .waitEvent →
      s.clients c = .waitEvent ∧ s'.clientEvent c = s.clientEvent c) : Effect s a s' :=
  .frame a s' operations executed (by rw [worker]) (by rw [worker]) waits (by rw [worker])

theorem Effect.turn {s s' : State} {a : Act} (operations : s'.operations = s.operations)
    (executed : s'.executed = s.executed) (clients : s'.clients = s.clients)
    (events : s'.clientEvent = s.clientEvent) (hand : handed s'.worker = handed s.worker)
    (served : serving s'.worker = serving s.worker)
    (seen : s'.worker.stopSeen ↔ s.worker.stopSeen) : Effect s a s' := by
  refine .frame a s' operations executed hand served ?_ seen
  intro c waits
  rw [clients] at waits
  exact ⟨waits, by rw [events]⟩

theorem work_effect {s : State} (up : Up s) (clockUs : Int) (faults : List (Option Nat)) :
    Effect s (.work clockUs faults) (workStep s clockUs faults) ∧ Up (workStep s clockUs faults) := by
  have running := up.worker
  unfold workStep
  cases place : s.worker with
  | absent => simp [place, WorkerPc.looping, WorkerPc.stopSeen] at running
  | setRunning => simp [place, WorkerPc.looping, WorkerPc.stopSeen] at running
  | dequeue => exact ⟨.quiet rfl rfl rfl fun _ waits => ⟨waits, rfl⟩, up⟩
  | exited => exact ⟨.quiet rfl rfl rfl fun _ waits => ⟨waits, rfl⟩, up⟩
  | loopTest =>
    have on := up.on (by rw [place]; trivial)
    simp only [on, if_true]
    exact ⟨.turn rfl rfl rfl rfl (by rw [place]; rfl) (by rw [place]; rfl) (by rw [place]; rfl),
      up.starter, .inl ⟨trivial, rfl⟩⟩
  | stopSignal caller =>
    exact ⟨.turn rfl rfl rfl rfl (by rw [place]; rfl) (by rw [place]; rfl) (by rw [place]; rfl),
      up.starter, .inr trivial⟩
  | sweepTest =>
    have on := up.on (by rw [place]; trivial)
    dsimp only
    split
    · exact ⟨.turn rfl rfl rfl rfl (by rw [place]; rfl) (by rw [place]; rfl) (by rw [place]; rfl),
        up.starter, .inl ⟨trivial, on⟩⟩
    · exact ⟨.turn rfl rfl rfl rfl (by rw [place]; rfl) (by rw [place]; rfl) (by rw [place]; rfl),
        up.starter, .inl ⟨trivial, on⟩⟩
  | sweep nowUs =>
    have on := up.on (by rw [place]; trivial)
    exact ⟨.turn rfl rfl rfl rfl (by rw [place]; rfl) (by rw [place]; rfl) (by rw [place]; rfl),
      up.starter, .inl ⟨trivial, on⟩⟩
  | signal c m =>
    have on := up.on (by rw [place]; trivial)
    dsimp only
    split
    next async =>
      exact ⟨.wakes c m clockUs faults _ place (by rw [if_pos async]), up.starter, .inl ⟨trivial, on⟩⟩
    next sync =>
      exact ⟨.wakes c m clockUs faults _ place (by rw [if_neg sync]), up.starter, .inl ⟨trivial, on⟩⟩
  | dispatch operation =>
    cases operation with
    | stop caller =>
      exact ⟨.turn rfl rfl rfl rfl (by rw [place]; rfl) (by rw [place]; rfl) (by rw [place]; rfl),
        up.starter, .inr trivial⟩
    | request c m =>
      have on := up.on (by rw [place]; trivial)
      exact ⟨.runs c m clockUs faults _ place, up.starter, .inl ⟨trivial, on⟩⟩

theorem dequeue_effect {s : State} (up : Up s) (i : Nat) :
    Effect s (.dequeue i) (dequeueStep s i) ∧ Up (dequeueStep s i) := by
  unfold dequeueStep
  split
  next operation place found =>
    split
    next first =>
      refine ⟨.takes i operation place found (by simpa using first), up.starter, ?_⟩
      have on := up.on (by rw [place]; trivial)
      cases operation with
      | stop caller => exact .inr trivial
      | request c m => exact .inl ⟨trivial, on⟩
    next => exact ⟨.quiet rfl rfl rfl fun _ waits => ⟨waits, rfl⟩, up⟩
  next => exact ⟨.quiet rfl rfl rfl fun _ waits => ⟨waits, rfl⟩, up⟩

theorem timeout_effect {s : State} (up : Up s) :
    Effect s .timeout (timeoutStep s) ∧ Up (timeoutStep s) := by
  unfold timeoutStep
  split
  next place =>
    have on := up.on (by rw [place]; trivial)
    exact ⟨.turn rfl rfl rfl rfl (by rw [place]; rfl) (by rw [place]; rfl) (by rw [place]; rfl),
      up.starter, .inl ⟨trivial, on⟩⟩
  next => exact ⟨.quiet rfl rfl rfl fun _ waits => ⟨waits, rfl⟩, up⟩

theorem stop_effect {s : State} (up : Up s) (caller : Nat) :
    Effect s (.stop caller) (stopStep s caller) ∧ Up (stopStep s caller) := by
  unfold stopStep
  cases place : s.stops caller with
  | enqueue => exact ⟨.sendsStop caller place, up.frame rfl rfl rfl⟩
  | exchange | waitEvent | join =>
    all_goals
      dsimp only
      split
      · exact ⟨.quiet rfl rfl rfl fun _ waits => ⟨waits, rfl⟩, up.frame rfl rfl rfl⟩
      · exact ⟨.quiet rfl rfl rfl fun _ waits => ⟨waits, rfl⟩, up⟩
  | readStarted | readRunning =>
    all_goals exact ⟨.quiet rfl rfl rfl fun _ waits => ⟨waits, rfl⟩, up.frame rfl rfl rfl⟩
  | returned => exact ⟨.quiet rfl rfl rfl fun _ waits => ⟨waits, rfl⟩, up⟩

theorem call_effect {s : State} (up : Up s) (client : Nat) (method : Method) :
    Effect s (.call client method) (callStep s client method) ∧ Up (callStep s client method) := by
  unfold callStep
  split
  next idle =>
    refine ⟨.quiet rfl rfl rfl ?_, up.frame rfl rfl rfl⟩
    intro c waits
    have other : c ≠ client := by
      intro same
      simp [same] at waits
    simp only [Function.update_of_ne other] at waits ⊢
    exact ⟨waits, trivial⟩
  next => exact ⟨.quiet rfl rfl rfl fun _ waits => ⟨waits, rfl⟩, up⟩

theorem client_effect {s : State} (up : Up s) (client : Nat) :
    Effect s (.client client) (clientStep s client) ∧ Up (clientStep s client) := by
  unfold clientStep
  cases place : s.clients client with
  | idle => exact ⟨.quiet rfl rfl rfl fun _ waits => ⟨waits, rfl⟩, up⟩
  | enqueue m => exact ⟨.sends client m place, up.frame rfl rfl rfl⟩
  | waitEvent =>
    dsimp only
    split
    next =>
      refine ⟨.quiet rfl rfl rfl ?_, up.frame rfl rfl rfl⟩
      intro c waits
      have other : c ≠ client := by
        intro same
        simp [same] at waits
      simp only [Function.update_of_ne other] at waits
      exact ⟨waits, rfl⟩
    next => exact ⟨.quiet rfl rfl rfl fun _ waits => ⟨waits, rfl⟩, up⟩

theorem next_effect {s : State} (up : Up s) (a : Act) : Effect s a (next s a) ∧ Up (next s a) := by
  cases a with
  | start =>
    have same : startStep s = s := by simp [startStep, up.starter]
    simp only [next, same]
    exact ⟨.quiet rfl rfl rfl fun _ waits => ⟨waits, rfl⟩, up⟩
  | work clockUs faults => exact work_effect up clockUs faults
  | dequeue i => exact dequeue_effect up i
  | timeout => exact timeout_effect up
  | stop caller => exact stop_effect up caller
  | call client method => exact call_effect up client method
  | client client => exact client_effect up client
  | setSweepInterval us =>
    simp only [next, setSweepInterval]
    split
    · exact ⟨.quiet rfl rfl rfl fun _ waits => ⟨waits, rfl⟩, up.frame rfl rfl rfl⟩
    · exact ⟨.quiet rfl rfl rfl fun _ waits => ⟨waits, rfl⟩, up⟩

theorem stops_kept (s : State) (a : Act) (other : ∀ caller, a ≠ .stop caller) :
    (next s a).stops = s.stops := by
  cases a with
  | stop caller => exact absurd rfl (other caller)
  | start => simp only [next, startStep]; split <;> rfl
  | work clockUs faults =>
    simp only [next, workStep]
    split <;> first | rfl | (split <;> rfl)
  | dequeue i =>
    simp only [next, dequeueStep]
    split
    · split <;> rfl
    · rfl
  | timeout => simp only [next, timeoutStep]; split <;> rfl
  | call client method => simp only [next, callStep]; split <;> rfl
  | client client =>
    simp only [next, clientStep]
    split
    · rfl
    · rfl
    · split <;> rfl
  | setSweepInterval us => simp only [next, setSweepInterval]; split <;> rfl

theorem eraseIdx_take_inside {α : Type} (l : List α) {i n : Nat} (inside : i < n) :
    (l.eraseIdx i).take (n - 1) = (l.take n).eraseIdx i := by
  apply List.ext_getElem?
  intro j
  simp only [List.getElem?_take, List.getElem?_eraseIdx]
  split_ifs <;> first | rfl | omega

theorem eraseIdx_take_beyond {α : Type} (l : List α) {i n : Nat} (beyond : n ≤ i) :
    (l.eraseIdx i).take n = l.take n := by
  apply List.ext_getElem?
  intro j
  simp only [List.getElem?_take, List.getElem?_eraseIdx]
  split_ifs <;> first | rfl | omega

theorem requests_of_others {operations : List Operation} {c : Nat} {m : Method}
    (others : ∀ x ∈ operations, x.producer ≠ (Operation.request c m).producer) :
    (requests operations).filter (·.1 = c) = [] := by
  apply List.filter_eq_nil_iff.mpr
  intro r member
  obtain ⟨x, inside, eq⟩ := List.mem_filterMap.mp member
  have other := others x inside
  cases x with
  | stop k => simp [requestOf] at eq
  | request d n =>
    simp only [requestOf, Option.some.injEq] at eq
    simp only [Operation.producer] at other
    simp only [← eq, decide_eq_true_eq]
    intro equal
    exact other (by rw [equal])

theorem requests_taken {operations : List Operation} {i : Nat} {operation : Operation}
    (found : operations[i]? = some operation)
    (first : ∀ x ∈ operations.take i, x.producer ≠ operation.producer) (c : Nat) :
    (requests operations).filter (·.1 = c) =
      (handed (.dispatch operation) ++ requests (operations.eraseIdx i)).filter (·.1 = c) := by
  obtain ⟨inside, here⟩ := List.getElem?_eq_some_iff.mp found
  have split : operations = operations.take i ++ operation :: operations.drop (i + 1) := by
    rw [← here]
    simp
  have erased : operations.eraseIdx i = operations.take i ++ operations.drop (i + 1) :=
    List.eraseIdx_eq_take_drop_succ operations i
  rw [erased]
  nth_rewrite 1 [split]
  cases operation with
  | stop caller => simp [requests, requestOf, handed, List.filterMap_cons]
  | request d m =>
    by_cases same : d = c
    · subst same
      have none := requests_of_others first
      simp only [requests] at none
      simp [requests, requestOf, handed, none]
    · simp [requests, requestOf, handed, same]

/-- The line of every client: executed, in the worker's hand, queued. Of what was enqueued before
    the `stop()` call, what is not executed is in hand or among the first `old` of the queue. -/
structure Line (w : Watched) : Prop where
  up : Up w.state
  line : ∀ c, (w.state.executed ++ handed w.state.worker ++ requests w.state.operations).filter
    (·.1 = c) = w.enqueued.filter (·.1 = c)
  bound : w.old ≤ w.state.operations.length
  prior : ∀ b, w.before = some b → ∀ c, b.filter (·.1 = c) <+:
    (w.state.executed ++ handed w.state.worker ++
      requests (w.state.operations.take w.old)).filter (·.1 = c)
  begun : w.before = none → (∀ k, w.state.stops k = .exchange) ∧
    (∀ k, Operation.stop k ∉ w.state.operations) ∧ ¬ w.state.worker.stopSeen

theorem line_start (storage : Storage) (interval lastSweep : Int) (cursor : SweepCursor) :
    Line ⟨running storage interval lastSweep cursor, [], none, 0⟩ where
  up := ⟨rfl, .inl ⟨trivial, rfl⟩⟩
  line _ := rfl
  bound := Nat.zero_le _
  prior _ some := by cases some
  begun _ := ⟨fun _ => rfl, fun _ => by simp [running], fun seen => by cases seen⟩

theorem Line.frame {w : Watched} (line : Line w) {s' : State} (up : Up s')
    (operations : s'.operations = w.state.operations) (executed : s'.executed = w.state.executed)
    (hand : handed s'.worker = handed w.state.worker)
    (begun : w.before = none → (∀ k, s'.stops k = .exchange) ∧
      (∀ k, Operation.stop k ∉ s'.operations) ∧ ¬ s'.worker.stopSeen) :
    Line { w with state := s' } where
  up := up
  line c := by
    dsimp only
    rw [operations, executed, hand]
    exact line.line c
  bound := by
    dsimp only
    rw [operations]
    exact line.bound
  prior b some c := by
    dsimp only
    rw [operations, executed, hand]
    exact line.prior b some c
  begun := begun

theorem Line.taken {w : Watched} (line : Line w) {i : Nat} {operation : Operation}
    (at_ : w.state.worker = .dequeue) (found : w.state.operations[i]? = some operation)
    (first : ∀ x ∈ w.state.operations.take i, x.producer ≠ operation.producer)
    (up : Up { w.state with operations := w.state.operations.eraseIdx i,
                            worker := .dispatch operation }) :
    Line { w with state := { w.state with operations := w.state.operations.eraseIdx i,
                                          worker := .dispatch operation },
                  old := if i < w.old then w.old - 1 else w.old } where
  up := up
  line c := by
    have before := line.line c
    rw [at_] at before
    simp only [handed, List.append_nil, List.filter_append] at before
    rw [requests_taken found first] at before
    simpa only [List.append_assoc, List.filter_append] using before
  bound := by
    obtain ⟨inside, -⟩ := List.getElem?_eq_some_iff.mp found
    have bound := line.bound
    dsimp only
    rw [List.length_eraseIdx_of_lt inside]
    split <;> omega
  prior b called c := by
    have before := line.prior b called c
    rw [at_] at before
    simp only [handed, List.append_nil, List.filter_append] at before
    dsimp only
    split
    next among =>
      -- one of the old ones: it goes from the queue to the worker's hand
      have foundOld : (w.state.operations.take w.old)[i]? = some operation := by
        rw [List.getElem?_take_of_lt among, found]
      have firstOld : ∀ x ∈ (w.state.operations.take w.old).take i,
          x.producer ≠ operation.producer := by
        intro x member
        rw [List.take_take, Nat.min_eq_left among.le] at member
        exact first x member
      rw [requests_taken foundOld firstOld] at before
      rw [eraseIdx_take_inside _ among]
      simpa only [List.append_assoc, List.filter_append] using before
    next beyond =>
      rw [eraseIdx_take_beyond _ (by omega)]
      cases operation with
      | stop k => simpa [handed] using before
      | request d m =>
        by_cases same : d = c
        · -- a newer one of this client is the first, so no old one is left
          subst same
          have none : (requests (w.state.operations.take w.old)).filter (·.1 = d) = [] := by
            apply requests_of_others (m := m)
            intro x member
            have shorter := List.take_prefix_take_left (l := w.state.operations)
              (show w.old ≤ i by omega)
            exact first x (shorter.subset member)
          rw [none, List.append_nil] at before
          simp only [List.append_assoc, List.filter_append]
          exact before.trans (List.prefix_append _ _)
        · simpa [handed, same] using before
  begun none := by
    obtain ⟨stops, queue, -⟩ := line.begun none
    refine ⟨stops, fun k member => queue k (List.mem_of_mem_eraseIdx member), ?_⟩
    cases operation with
    | stop k => exact absurd (List.mem_of_getElem? found) (queue k)
    | request c m => simp [WorkerPc.stopSeen]

theorem requests_append (operations : List Operation) (operation : Operation) :
    requests (operations ++ [operation]) = requests operations ++ (requestOf operation).toList := by
  cases operation <;> simp [requests, requestOf]

theorem Line.sent {w : Watched} (line : Line w) {operation : Operation} {s' : State}
    {enqueued : List Request} (up : Up s')
    (operations : s'.operations = w.state.operations ++ [operation])
    (executed : s'.executed = w.state.executed) (worker : s'.worker = w.state.worker)
    (log : enqueued = w.enqueued ++ (requestOf operation).toList)
    (begun : w.before = none → (∀ k, s'.stops k = .exchange) ∧
      (∀ k, Operation.stop k ∉ s'.operations) ∧ ¬ s'.worker.stopSeen) :
    Line { w with state := s', enqueued := enqueued } where
  up := up
  line c := by
    have before := line.line c
    dsimp only
    rw [operations, executed, worker, log, requests_append, ← List.append_assoc,
      List.filter_append, before, ← List.filter_append]
  bound := by
    have bound := line.bound
    dsimp only
    rw [operations, List.length_append]
    omega
  prior b called c := by
    dsimp only
    rw [operations, executed, worker, List.take_append_of_le_length line.bound]
    exact line.prior b called c
  begun := begun

theorem Line.called {w : Watched} (line : Line w) {s' : State} (up : Up s')
    (operations : s'.operations = w.state.operations) (executed : s'.executed = w.state.executed)
    (worker : s'.worker = w.state.worker) :
    Line { w with state := s', before := some w.enqueued, old := w.state.operations.length } where
  up := up
  line c := by
    dsimp only
    rw [operations, executed, worker]
    exact line.line c
  bound := by
    dsimp only
    rw [operations]
  prior b called c := by
    dsimp only at called ⊢
    cases called
    rw [operations, executed, worker, List.take_length, line.line c]
  begun none := by cases none

theorem line_client {w : Watched} (line : Line w) (c : Nat) : Line (w.next (.client c)) := by
  obtain ⟨-, up⟩ := client_effect line.up c
  unfold Watched.next
  dsimp only [next]
  unfold clientStep at up ⊢
  cases place : w.state.clients c with
  | idle => exact line
  | waitEvent =>
    simp only [place] at up
    dsimp only
    split
    next event =>
      rw [if_pos event] at up
      exact line.frame up rfl rfl rfl line.begun
    next => exact line
  | enqueue m =>
    simp only [place] at up
    refine line.sent up rfl rfl rfl rfl ?_
    intro none
    obtain ⟨stops, queue, unseen⟩ := line.begun none
    refine ⟨stops, ?_, unseen⟩
    intro k member
    rcases List.mem_append.mp member with old | new
    · exact queue k old
    · simp at new

theorem line_stop {w : Watched} (line : Line w) (caller : Nat) : Line (w.next (.stop caller)) := by
  obtain ⟨-, up⟩ := stop_effect line.up caller
  unfold Watched.next
  dsimp only [next]
  split
  next calls =>
    have first : w.state.stops caller = .exchange := by
      simp only [Watched.calls, decide_eq_true_eq] at calls
      exact calls.2.1
    unfold stopStep at up ⊢
    simp only [first, line.up.starter, if_true] at up ⊢
    exact line.called up rfl rfl rfl
  next others =>
    have under : w.before ≠ none := by
      intro none
      obtain ⟨stops, -⟩ := line.begun none
      exact others (by simp [Watched.calls, none, stops caller, line.up.starter])
    unfold stopStep at up ⊢
    cases place : w.state.stops caller with
    | enqueue =>
      simp only [place] at up
      exact line.sent up (rfl : _ = _ ++ [Operation.stop caller]) rfl rfl (by simp [requestOf])
        fun none => absurd none under
    | exchange | waitEvent | join =>
      all_goals
        simp only [place] at up
        dsimp only
        split at up
        next test =>
          rw [if_pos test]
          exact line.frame up rfl rfl rfl fun none => absurd none under
        next test =>
          rw [if_neg test]
          exact line
    | readStarted | readRunning =>
      all_goals
        simp only [place] at up
        exact line.frame up rfl rfl rfl fun none => absurd none under
    | returned => exact line

theorem line_dequeue {w : Watched} (line : Line w) (i : Nat) : Line (w.next (.dequeue i)) := by
  obtain ⟨-, up⟩ := dequeue_effect line.up i
  have same : Line { w with state := w.state, old := if i < w.old ∧
      w.state.operations.length < w.state.operations.length then w.old - 1 else w.old } := by
    simpa using line
  unfold Watched.next
  dsimp only [next]
  unfold dequeueStep at up ⊢
  split
  next operation place found =>
    simp only [place, found] at up
    split
    next first =>
      rw [if_pos first] at up
      obtain ⟨inside, -⟩ := List.getElem?_eq_some_iff.mp found
      have shorter : (w.state.operations.eraseIdx i).length < w.state.operations.length := by
        rw [List.length_eraseIdx_of_lt inside]
        omega
      have taken := line.taken place found (by simpa using first) up
      simpa only [shorter, and_true] using taken
    next => exact same
  next => exact same

theorem Line.worked {w : Watched} (line : Line w) {a : Act} {s' : State}
    (effect : Effect w.state a s') (up : Up s') (stops : s'.stops = w.state.stops)
    (aside : ∀ n, a ≠ .dequeue n ∧ a ≠ .client n ∧ a ≠ .stop n) : Line { w with state := s' } := by
  cases effect with
  | frame _ _ operations executed hand served waits seen =>
    refine line.frame up operations executed hand ?_
    rw [stops, operations, seen]
    exact line.begun
  | runs c m _ _ storage at_ =>
    have before := line.line
    have prior := line.prior
    simp only [at_, handed] at before prior
    refine ⟨up, ?_, line.bound, ?_, ?_⟩
    · intro d
      simpa [handed] using before d
    · intro b called d
      simpa [handed] using prior b called d
    · intro none
      obtain ⟨stops, queue, -⟩ := line.begun none
      exact ⟨stops, queue, id⟩
  | wakes c m _ _ event at_ set =>
    refine line.frame up rfl rfl (by rw [at_]; rfl) ?_
    intro none
    obtain ⟨stops, queue, -⟩ := line.begun none
    exact ⟨stops, queue, id⟩
  | takes i => exact absurd rfl (aside i).1
  | sends c => exact absurd rfl (aside c).2.1
  | sendsStop caller => exact absurd rfl (aside caller).2.2

theorem line_next (w : Watched) (a : Act) (line : Line w) : Line (w.next a) := by
  obtain ⟨effect, up⟩ := next_effect line.up a
  have stops := stops_kept w.state a
  cases a with
  | client c => exact line_client line c
  | stop caller => exact line_stop line caller
  | dequeue i => exact line_dequeue line i
  | work clockUs faults => exact line.worked effect up (stops (by simp)) (by simp)
  | start => exact line.worked effect up (stops (by simp)) (by simp)
  | timeout => exact line.worked effect up (stops (by simp)) (by simp)
  | call client method => exact line.worked effect up (stops (by simp)) (by simp)
  | setSweepInterval us => exact line.worked effect up (stops (by simp)) (by simp)

/-- When the worker takes a STOP, no request from before the `stop()` call and no synchronous one
    is queued; later no synchronous one is enqueued. -/
def StopsLast (w : Watched) : Act → Prop
  | .dequeue i => ∀ k, w.state.worker = .dequeue → w.state.operations[i]? = some (.stop k) →
      w.old = 0 ∧ ∀ c m, Operation.request c m ∈ w.state.operations → Method.async m = true
  | .client c => w.state.worker.stopSeen → ∀ m, w.state.clients c = .enqueue m →
      Method.async m = true
  | _ => True

/-- Who waits has been woken, or the worker has or will find the request; once a STOP is taken
    nothing is left to find. -/
structure Settled (w : Watched) : Prop where
  line : Line w
  waiting : ∀ c, w.state.clients c = .waitEvent → w.state.clientEvent c = true ∨
    ∃ m, Method.async m = false ∧
      (Operation.request c m ∈ w.state.operations ∨ serving w.state.worker = some (c, m))
  closed : w.state.worker.stopSeen →
    (∀ c m, Operation.request c m ∈ w.state.operations → Method.async m = true) ∧
    ∀ b, w.before = some b → ∀ c, b.filter (·.1 = c) <+: w.state.executed.filter (·.1 = c)

theorem settled_start (storage : Storage) (interval lastSweep : Int) (cursor : SweepCursor) :
    Settled ⟨running storage interval lastSweep cursor, [], none, 0⟩ where
  line := line_start storage interval lastSweep cursor
  waiting _ waits := by cases waits
  closed seen := by cases seen

theorem seen_serves_none {pc : WorkerPc} (seen : pc.stopSeen) : serving pc = none := by
  cases pc with
  | dispatch operation =>
    cases operation with
    | stop k => rfl
    | request c m => exact absurd seen id
  | signal c m => exact absurd seen id
  | _ => rfl

/-- What the claim asks of a state: once the worker has left `run()`. -/
def Complete (w : Watched) : Prop :=
  w.state.worker = .exited →
    (∀ b, w.before = some b → ∀ c, b.filter (·.1 = c) <+: w.state.executed.filter (·.1 = c)) ∧
    ∀ c, w.state.clients c = .waitEvent → w.state.clientEvent c = true

theorem Settled.complete {w : Watched} (settled : Settled w) : Complete w := by
  intro gone
  have seen : w.state.worker.stopSeen := by
    rw [gone]
    trivial
  obtain ⟨queue, executed⟩ := settled.closed seen
  refine ⟨executed, ?_⟩
  intro c waits
  rcases settled.waiting c waits with set | ⟨m, sync, queued | served⟩
  · exact set
  · rw [queue c m queued] at sync
    cases sync
  · rw [seen_serves_none seen] at served
    cases served

theorem Watched.next_state (w : Watched) (a : Act) :
    (w.next a).state = TinyMqWorkerHandshake.next w.state a := by
  unfold Watched.next
  cases a with
  | client c => dsimp only; split <;> rfl
  | stop caller => dsimp only; split <;> rfl
  | _ => rfl

theorem Line.before_next {w : Watched} (line : Line w) (a : Act) :
    (w.next a).before = w.before ∨ ¬ (w.next a).state.worker.stopSeen := by
  cases a with
  | client c =>
    left
    unfold Watched.next
    dsimp only
    split <;> rfl
  | stop caller =>
    by_cases calls : w.calls caller = true
    · right
      have parts := calls
      simp only [Watched.calls, decide_eq_true_eq] at parts
      rw [w.next_state]
      simp only [next, stopStep, parts.2.1, parts.2.2, if_true]
      exact (line.begun parts.1).2.2
    · left
      unfold Watched.next
      dsimp only
      rw [if_neg calls]
  | dequeue i | start | work | timeout | call | setSweepInterval => exact .inl rfl

theorem waiting_next {s s' : State} {a : Act} (effect : Effect s a s')
    (waiting : ∀ c, s.clients c = .waitEvent → s.clientEvent c = true ∨
      ∃ m, Method.async m = false ∧
        (Operation.request c m ∈ s.operations ∨ serving s.worker = some (c, m)))
    (c : Nat) (waits : s'.clients c = .waitEvent) : s'.clientEvent c = true ∨
      ∃ m, Method.async m = false ∧
        (Operation.request c m ∈ s'.operations ∨ serving s'.worker = some (c, m)) := by
  cases effect with
  | frame _ _ operations executed hand served keeps seen =>
    rw [operations, served, (keeps c waits).2]
    exact waiting c (keeps c waits).1
  | takes i operation at_ found first =>
    rcases waiting c waits with set | ⟨m, sync, queued | served⟩
    · exact .inl set
    · refine .inr ⟨m, sync, ?_⟩
      obtain ⟨j, at_j⟩ := List.mem_iff_getElem?.mp queued
      by_cases same : j = i
      · rw [same, found] at at_j
        cases at_j
        exact .inr rfl
      · exact .inl (List.mem_eraseIdx_iff_getElem?.mpr ⟨j, same, at_j⟩)
    · simp [at_, serving] at served
  | runs d n _ _ storage at_ =>
    rcases waiting c waits with set | ⟨m, sync, queued | served⟩
    · exact .inl set
    · exact .inr ⟨m, sync, .inl queued⟩
    · exact .inr ⟨m, sync, .inr (by rw [at_] at served; exact served)⟩
  | wakes d n _ _ event at_ set =>
    dsimp only
    rcases waiting c waits with old | ⟨m, sync, queued | served⟩
    · left
      rw [set]
      split
      · exact old
      · by_cases same : c = d
        · rw [same, Function.update_self]
        · rw [Function.update_of_ne same]
          exact old
    · exact .inr ⟨m, sync, .inl queued⟩
    · left
      rw [at_] at served
      cases served
      rw [set, sync]
      simp
  | sends d n at_ =>
    by_cases same : c = d
    · subst same
      dsimp only at waits
      rw [Function.update_self] at waits
      have sync : Method.async n = false := by
        cases kind : Method.async n with
        | false => rfl
        | true => simp [kind] at waits
      exact .inr ⟨n, sync, .inl (by simp)⟩
    · dsimp only at waits ⊢
      rw [Function.update_of_ne same] at waits
      rcases waiting c waits with set | ⟨m, sync, queued | served⟩
      · exact .inl set
      · exact .inr ⟨m, sync, .inl (List.mem_append_left _ queued)⟩
      · exact .inr ⟨m, sync, .inr served⟩
  | sendsStop caller at_ =>
    rcases waiting c waits with set | ⟨m, sync, queued | served⟩
    · exact .inl set
    · exact .inr ⟨m, sync, .inl (List.mem_append_left _ queued)⟩
    · exact .inr ⟨m, sync, .inr served⟩

theorem closed_next {w : Watched} {a : Act} {s' : State} (settled : Settled w)
    (last : StopsLast w a) (effect : Effect w.state a s') (seen : s'.worker.stopSeen) :
    (∀ c m, Operation.request c m ∈ s'.operations → Method.async m = true) ∧
    ∀ b, w.before = some b → ∀ c, b.filter (·.1 = c) <+: s'.executed.filter (·.1 = c) := by
  cases effect with
  | frame _ _ operations executed hand served keeps same =>
    rw [operations, executed]
    exact settled.closed (same.mp seen)
  | takes i operation at_ found first =>
    cases operation with
    | request c m => exact absurd seen id
    | stop k =>
      obtain ⟨none, async⟩ := last k at_ found
      refine ⟨fun c m member => async c m (List.mem_of_mem_eraseIdx member), ?_⟩
      intro b called c
      have prior := settled.line.prior b called c
      simpa [none, at_, handed, requests] using prior
  | runs => exact absurd seen id
  | wakes => exact absurd seen id
  | sends c m at_ =>
    obtain ⟨async, executed⟩ := settled.closed seen
    refine ⟨?_, executed⟩
    intro d n member
    rcases List.mem_append.mp member with old | new
    · exact async d n old
    · cases List.mem_singleton.mp new
      exact last seen m at_
  | sendsStop caller at_ =>
    obtain ⟨async, executed⟩ := settled.closed seen
    refine ⟨?_, executed⟩
    intro d n member
    rcases List.mem_append.mp member with old | new
    · exact async d n old
    · simp at new

theorem settled_next (w : Watched) (a : Act) (settled : Settled w) (last : StopsLast w a) :
    Settled (w.next a) := by
  obtain ⟨effect, -⟩ := next_effect settled.line.up a
  refine ⟨line_next w a settled.line, ?_, ?_⟩
  · rw [w.next_state]
    exact waiting_next effect settled.waiting
  · intro seen
    rcases settled.line.before_next a with same | unseen
    · rw [same]
      rw [w.next_state] at seen ⊢
      exact closed_next settled last effect seen
    · exact absurd seen unseen

theorem operations_around_stop_complete (storage : Storage) (interval lastSweep : Int)
    (cursor : SweepCursor) (acts : List Act)
    (last : Meets Watched.next StopsLast ⟨running storage interval lastSweep cursor, [], none, 0⟩ acts) :
    ∀ w ∈ states Watched.next ⟨running storage interval lastSweep cursor, [], none, 0⟩ acts,
      Complete w := by
  intro w reached
  have start := settled_start storage interval lastSweep cursor
  exact (invariant_along settled_next start last w reached).complete

/-- A caller that waits for a worker that is gone. -/
structure Stuck (s : State) (c : Nat) : Prop where
  starter : s.starter = .returned
  gone : s.worker = .exited
  waits : s.clients c = .waitEvent
  unset : s.clientEvent c = false

theorem stuck_next {c : Nat} (s : State) (a : Act) (stuck : Stuck s c) : Stuck (next s a) c := by
  obtain ⟨starter, gone, waits, unset⟩ := stuck
  cases a with
  | start => simpa only [next, startStep, starter] using ⟨starter, gone, waits, unset⟩
  | work clockUs faults =>
    simpa only [next, workStep, gone] using ⟨starter, gone, waits, unset⟩
  | dequeue i => simpa only [next, dequeueStep, gone] using ⟨starter, gone, waits, unset⟩
  | timeout => simpa [next, timeoutStep, gone] using ⟨starter, gone, waits, unset⟩
  | stop caller =>
    simp only [next, stopStep]
    split
    · split <;> exact ⟨starter, gone, waits, unset⟩
    · exact ⟨starter, gone, waits, unset⟩
    · exact ⟨starter, gone, waits, unset⟩
    · exact ⟨starter, gone, waits, unset⟩
    · split <;> exact ⟨starter, gone, waits, unset⟩
    · split <;> exact ⟨starter, gone, waits, unset⟩
    · exact ⟨starter, gone, waits, unset⟩
  | call d m =>
    simp only [next, callStep]
    split
    next idle =>
      have other : c ≠ d := by
        intro same
        rw [← same, waits] at idle
        cases idle
      exact ⟨starter, gone, by simp [Function.update_of_ne other, waits],
        by simp [Function.update_of_ne other, unset]⟩
    next => exact ⟨starter, gone, waits, unset⟩
  | client d =>
    simp only [next, clientStep]
    by_cases same : d = c
    · rw [same, waits]
      simp only [unset]
      exact ⟨starter, gone, waits, unset⟩
    · have other : c ≠ d := fun equal => same equal.symm
      split
      · exact ⟨starter, gone, waits, unset⟩
      · exact ⟨starter, gone, by simp [Function.update_of_ne other, waits], unset⟩
      · split
        · exact ⟨starter, gone, by simp [Function.update_of_ne other, waits], unset⟩
        · exact ⟨starter, gone, waits, unset⟩
  | setSweepInterval us =>
    simp only [next, setSweepInterval]
    split <;> exact ⟨starter, gone, waits, unset⟩

theorem stuck_forever {s : State} {c : Nat} (stuck : Stuck s c) (acts : List Act) :
    ∀ t ∈ states next s acts, t.clients c = .waitEvent ∧ t.clientEvent c = false := by
  intro t reached
  have still := invariant_reached stuck_next stuck acts t reached
  exact ⟨still.waits, still.unset⟩

def idleStorage : Watched := { state := running fresh 1000000 0 {} }

/-- Client 1 removes a record without waiting, client 2 scans, and the STOP of a third thread,
    enqueued after both, is dequeued first. -/
def overtakingStop : List Act :=
  [.call 1 (.removeAsync { tomId := 0 }), .client 1, .call 2 .scan, .client 2, .stop 0, .stop 0,
    .stop 0, .stop 0, .work 0 [], .dequeue 2, .work 0 [], .work 0 []]

theorem overtaking_stop_loses_and_strands :
    (∃ w ∈ states Watched.next idleStorage overtakingStop, ¬ Complete w) ∧
    ∀ acts, ∀ t ∈ states next (overtakingStop.foldl Watched.next idleStorage).state acts,
      t.clients 2 = .waitEvent ∧ t.clientEvent 2 = false := by
  constructor
  · refine ⟨_, last_state_mem _ _ _, ?_⟩
    intro complete
    have woken := (complete (by decide)).2 2 (by decide)
    revert woken
    decide
  · intro acts
    exact stuck_forever ⟨by decide, by decide, by decide, by decide⟩ acts

/-- The same calls; the STOP is dequeued after both requests. -/
def patientStop : List Act :=
  [.call 1 (.removeAsync { tomId := 0 }), .client 1, .call 2 .scan, .client 2, .stop 0, .stop 0,
    .stop 0, .stop 0, .work 0 [], .dequeue 0, .work 0 [], .work 0 [], .work 0 [], .work 0 [],
    .dequeue 0, .work 0 [], .work 0 [], .work 0 [], .work 0 [], .dequeue 0, .work 0 [], .work 0 []]

theorem patient_stop_complete :
    (∀ w ∈ states Watched.next idleStorage patientStop, Complete w) ∧
      (patientStop.foldl Watched.next idleStorage).state.executed =
        [(1, .removeAsync { tomId := 0 }), (2, .scan)] := by
  refine ⟨operations_around_stop_complete fresh 1000000 0 {} patientStop ?_, by decide⟩
  have early : ∀ {P : Prop}, WorkerPc.stopSeen .loopTest → P := fun seen => absurd seen id
  refine ⟨trivial, early, trivial, early, trivial, trivial, trivial, trivial, trivial, ?_, trivial,
    trivial, trivial, trivial, ?_, trivial, trivial, trivial, trivial, ?_, trivial, trivial, trivial⟩
  · intro k _ found
    cases found
  · intro k _ found
    cases found
  · intro k _ found
    refine ⟨by decide, ?_⟩
    intro c m member
    have only : (Operation.request c m) ∈ [Operation.stop 0] := member
    simp at only

end TinyMqStopQueue
