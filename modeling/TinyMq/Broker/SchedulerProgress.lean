import TinyMq.Lib.Deadlines
import TinyMq.Broker.DeliveryScheduler

/-!
The worker of `DeliveryScheduler` never gets stuck. It sleeps for a day at most; a message
that is due is delivered after a number of its steps that only insertions can raise, and
after `stop()` it leaves, whatever the other threads do in between. Who waits for a
predicate is notified when it becomes true.
-/
namespace TinyMqSchedulerProgress
open Machines Deadlines TinyMqMessage TinyMqDeliveryScheduler

/-- The next step of the worker: a sleep ends when its predicate holds or its time is over. -/
def turn (s : State) : State :=
  match s.worker with
  | .waitMsg => wakeStep s
  | .waitUntil _ startVersion =>
    if s.stop ∨ s.version ≠ startVersion then wakeStep s else timeoutStep s
  | _ => workStep s

/-- What may happen next: anything at all, or the worker's own next step. -/
inductive Input where
  | act (a : Act)
  | turn

def give (s : State) : Input → State
  | .act a => next s a
  | .turn => turn s

def isTurn : Input → Nat
  | .act _ => 0
  | .turn => 1

def turns (inputs : List Input) : Nat := paid isTurn inputs

def restOf (clock : Int) : WorkerPc → Int
  | .plan deadlineMs _ => cappedWaitDeltaMs deadlineMs clock
  | .arm deltaMs _ => deltaMs
  | .waitUntil deadline _ => deadline - clock
  | _ => 0

def patience (s : State) : Int := restOf s.clock s.worker

/-- The worker is there while something is scheduled, and plans for what comes first. -/
structure Staffed (s : State) : Prop where
  started : s.worker = .absent ↔ s.threadStarted = false
  staffed : s.pending ≠ [] → s.threadStarted = true
  left : s.worker = .exited → s.stop = true
  same : s.stopped = s.stop
  plans : ∀ d v, s.worker = .plan d v →
    v = s.version ∧ ∃ e rest, s.pending = e :: rest ∧ d = e.key
  arms : ∀ d v, s.worker = .arm d v → v = s.version
  sleeps : patience s ≤ kMaxWaitMs

theorem cappedWaitDeltaMs_le (deadlineMs nowMsValue : Int) :
    cappedWaitDeltaMs deadlineMs nowMsValue ≤ kMaxWaitMs := by
  unfold cappedWaitDeltaMs kMaxWaitMs
  split
  · omega
  · split <;> omega

theorem cappedWaitDeltaMs_due {deadlineMs nowMsValue : Int} (due : deadlineMs ≤ nowMsValue) :
    cappedWaitDeltaMs deadlineMs nowMsValue = 0 :=
  if_pos due

theorem staffed_fresh (clock : Int) : Staffed (fresh clock) := by
  constructor <;> simp [fresh, patience, restOf, kMaxWaitMs]

/-- What the other threads can do while the worker makes no step. -/
inductive Aside (s s' : State) : Prop
  | apart (worker : s'.worker = s.worker) (started : s'.threadStarted = s.threadStarted)
      (pending : s'.pending = s.pending) (version : s'.version = s.version)
      (clock : s.clock ≤ s'.clock) (stop : s.stop = true → s'.stop = true)
      (same : s.stopped = s.stop → s'.stopped = s'.stop)
  | insert (e : Entry) (unlocked : s.worker.locked = false) (running : s.stopped = false)
      (worker : s'.worker = if s.threadStarted then s.worker else .begin)
      (started : s'.threadStarted = true) (pending : s'.pending = emplace e s.pending)
      (version : s'.version = s.version + 1) (clock : s'.clock = s.clock)
      (stop : s'.stop = s.stop) (stopped : s'.stopped = s.stopped)

theorem Aside.goto (s : State) (t : Nat) (pc : CallPc) : Aside s (s.goto t pc) :=
  .apart rfl rfl rfl rfl le_rfl id id

theorem callerStep_aside (s : State) (t : Nat) : Aside s (callerStep s t) := by
  unfold callerStep
  cases s.calls t with
  | unborn => exact .apart rfl rfl rfl rfl le_rfl id id
  | returned => exact .apart rfl rfl rfl rfl le_rfl id id
  | clamp g =>
    dsimp only
    split
    · exact Aside.goto s t _
    · exact Aside.goto s t _
  | due g =>
    dsimp only
    split
    · exact Aside.goto s t _
    · exact Aside.goto s t _
  | put g => exact .apart rfl rfl rfl rfl le_rfl id id
  | lock g =>
    dsimp only
    split
    next => exact .apart rfl rfl rfl rfl le_rfl id id
    next unlocked =>
      unfold scheduleStep
      split
      next =>
        split
        · exact .apart rfl rfl rfl rfl le_rfl id id
        · exact Aside.goto s t _
      next running =>
        exact .insert ⟨g.deliveryTime, t, s.version, g⟩ (by simpa using unlocked)
          (by simpa using running) rfl rfl rfl rfl rfl rfl rfl

theorem stopStep_aside (s : State) (k : Nat) : Aside s (stopStep s k) := by
  unfold stopStep
  cases s.stops k with
  | start =>
    dsimp only
    split
    · exact .apart rfl rfl rfl rfl le_rfl id id
    · split
      · exact .apart rfl rfl rfl rfl le_rfl id id
      · exact .apart rfl rfl rfl rfl le_rfl (fun _ => rfl) fun _ => rfl
  | join =>
    dsimp only
    split
    · exact .apart rfl rfl rfl rfl le_rfl id id
    · exact .apart rfl rfl rfl rfl le_rfl id id
  | returned => exact .apart rfl rfl rfl rfl le_rfl id id

/- The worker has one next step at a time, whichever of its three actions it is asked for. -/
theorem next_cases (s : State) (a : Act) : next s a = turn s ∨ Aside s (next s a) := by
  have still : ∀ {s' : State}, s' = s → Aside s s' := by
    intro s' same
    subst same
    exact .apart rfl rfl rfl rfl le_rfl id id
  cases a with
  | tick ms => exact .inr (.apart rfl rfl rfl rfl (by dsimp only [next]; omega) id id)
  | call t g =>
    refine .inr ?_
    show Aside s (callStep s t g)
    unfold callStep
    split
    · exact .apart rfl rfl rfl rfl le_rfl id id
    · exact still rfl
  | caller t => exact .inr (callerStep_aside s t)
  | stop k => exact .inr (stopStep_aside s k)
  | work =>
    cases at_ : s.worker with
    | waitMsg => exact .inr (still (by simp [next, workStep, at_]))
    | waitUntil d v => exact .inr (still (by simp [next, workStep, at_]))
    | _ => exact .inl (by simp only [next, turn, at_])
  | wake =>
    cases at_ : s.worker with
    | waitMsg => exact .inl (by simp only [next, turn, at_])
    | waitUntil d v =>
      by_cases woken : s.stop = true ∨ s.version ≠ v
      · exact .inl (by simp only [next, turn, at_, if_pos woken])
      · exact .inr (still (by simp only [next, wakeStep, at_, if_neg woken]))
    | _ => exact .inr (still (by simp only [next, wakeStep, at_]))
  | timeout =>
    cases at_ : s.worker with
    | waitUntil d v =>
      by_cases woken : s.stop = true ∨ s.version ≠ v
      · have awake : ¬ (¬ s.stop = true ∧ s.version = v ∧ d ≤ s.clock) := by tauto
        exact .inr (still (by simp only [next, timeoutStep, at_, if_neg awake]))
      · exact .inl (by simp only [next, turn, at_, if_neg woken])
    | _ => exact .inr (still (by simp only [next, timeoutStep, at_]))

theorem turn_is_act (s : State) : ∃ a, turn s = next s a := by
  unfold turn
  split
  · exact ⟨.wake, rfl⟩
  · split
    · exact ⟨.wake, rfl⟩
    · exact ⟨.timeout, rfl⟩
  · exact ⟨.work, rfl⟩

theorem Aside.staffed {s s' : State} (aside : Aside s s') (staffed : Staffed s) : Staffed s' := by
  cases aside with
  | apart worker started pending version clock stop same =>
    refine
      { started := by rw [worker, started]; exact staffed.started
        staffed := by rw [pending, started]; exact staffed.staffed
        left := by rw [worker]; exact fun gone => stop (staffed.left gone)
        same := same staffed.same
        plans := by rw [worker, pending, version]; exact staffed.plans
        arms := by rw [worker, version]; exact staffed.arms
        sleeps := ?_ }
    have before := staffed.sleeps
    unfold patience at before ⊢
    rw [worker]
    cases at_ : s.worker with
    | plan d v => exact cappedWaitDeltaMs_le d s'.clock
    | waitUntil d v =>
      simp only [at_, restOf] at before ⊢
      omega
    | _ => simpa [at_, restOf] using before
  | insert e unlocked running worker started pending version clock stop stopped =>
    have present : s'.worker ≠ .absent := by
      rw [worker]
      split
      next began => exact fun absent => by simp [staffed.started.mp absent] at began
      next => nofun
    have apart : s'.worker = s.worker ∨ s'.worker = .begin := by
      rw [worker]
      split
      · exact .inl rfl
      · exact .inr rfl
    have sleeps : patience s' ≤ kMaxWaitMs := by
      unfold patience
      rw [clock]
      rcases apart with same | begun
      · rw [same]
        exact staffed.sleeps
      · rw [begun]
        exact Int.le_of_lt (by decide : (0 : Int) < kMaxWaitMs)
    refine
      { started := by simp [present, started]
        staffed := fun _ => started
        left := ?_
        same := by rw [stop, stopped]; exact staffed.same
        plans := ?_
        arms := ?_
        sleeps := sleeps }
    · intro gone
      rcases apart with same | begun
      · rw [stop]
        exact staffed.left (same ▸ gone)
      · simp [begun] at gone
    · intro d v planning
      rcases apart with same | begun
      · rw [same] at planning
        simp [planning, WorkerPc.locked] at unlocked
      · simp [begun] at planning
    · intro d v arming
      rcases apart with same | begun
      · rw [same] at arming
        simp [arming, WorkerPc.locked] at unlocked
      · simp [begun] at arming

/-- What a turn of the worker does, by where it is. -/
inductive Turn (s : State) : State → Prop
  | idle (gone : s.worker = .absent ∨ s.worker = .exited) : Turn s s
  | waits (at_ : s.worker = .waitMsg) (running : s.stop = false) (empty : s.pending = []) : Turn s s
  | rests (d : Int) (at_ : s.worker = .waitUntil d s.version) (running : s.stop = false)
      (early : s.clock < d) : Turn s s
  | begins (at_ : s.worker = .begin) : Turn s { s with worker := .loopTest }
  | leaves (at_ : s.worker = .loopTest) (stop : s.stop = true) : Turn s { s with worker := .exited }
  | sleeps (at_ : s.worker = .loopTest) (running : s.stop = false) (empty : s.pending = []) :
      Turn s { s with worker := .waitMsg }
  | plans (e : Entry) (rest : List Entry) (at_ : s.worker = .loopTest) (running : s.stop = false)
      (first : s.pending = e :: rest) : Turn s { s with worker := .plan e.key s.version }
  | arms (d : Int) (v : Nat) (at_ : s.worker = .plan d v) :
      Turn s { s with worker := .arm (cappedWaitDeltaMs d s.clock) v }
  | starts (delta : Int) (v : Nat) (at_ : s.worker = .arm delta v) :
      Turn s { s with worker := .waitUntil (s.clock + delta) v }
  | wakes (at_ : s.worker = .waitMsg ∨ ∃ d v, s.worker = .waitUntil d v ∧
        (s.stop = true ∨ s.version ≠ v)) : Turn s { s with worker := .loopTest }
  | times (d : Int) (at_ : s.worker = .waitUntil d s.version) (running : s.stop = false) :
      Turn s { s with worker := .readUpTo }
  | reads (at_ : s.worker = .readUpTo) : Turn s { s with worker := .drain s.clock }
  | takes (e : Entry) (rest : List Entry) (upTo : Int) (at_ : s.worker = .drain upTo)
      (first : s.pending = e :: rest) (due : e.key ≤ upTo) :
      Turn s { s with pending := rest, worker := .hand e upTo }
  | ends (upTo : Int) (at_ : s.worker = .drain upTo)
      (late : ∀ e rest, s.pending = e :: rest → upTo < e.key) :
      Turn s { s with worker := .loopTest }
  | hands (e : Entry) (upTo : Int) (at_ : s.worker = .hand e upTo) :
      Turn s { s.putNow e.call e.entry with worker := .relock upTo }
  | relocks (upTo : Int) (at_ : s.worker = .relock upTo) : Turn s { s with worker := .drain upTo }

theorem turn_does (s : State) : Turn s (turn s) := by
  unfold turn
  cases at_ : s.worker with
  | waitMsg =>
    simp only [wakeStep, at_]
    split
    next => exact .wakes (.inl at_)
    next still =>
      have quiet : s.stop = false ∧ s.pending = [] := by simpa using still
      exact .waits at_ quiet.1 quiet.2
  | waitUntil d v =>
    dsimp only
    split
    next woken =>
      simp only [wakeStep, at_, if_pos woken]
      exact .wakes (.inr ⟨d, v, at_, woken⟩)
    next still =>
      have quiet : s.stop = false ∧ s.version = v := by simpa using still
      obtain ⟨running, same⟩ := quiet
      subst same
      simp only [timeoutStep, at_]
      split
      next => exact .times d at_ running
      next early => exact .rests d at_ running (by simpa [running] using early)
  | loopTest =>
    simp only [workStep, at_]
    split
    next stop => exact .leaves at_ stop
    next running =>
      have running : s.stop = false := by simpa using running
      split
      next empty => exact .sleeps at_ running empty
      next e rest first => exact .plans e rest at_ running first
  | drain upTo =>
    simp only [workStep, at_]
    split
    next empty => exact .ends upTo at_ (by simp [empty])
    next e rest first =>
      split
      next due => exact .takes e rest upTo at_ first due
      next late => exact .ends upTo at_ (by simpa [first] using late)
  | absent => simpa only [workStep, at_] using Turn.idle (.inl at_)
  | exited => simpa only [workStep, at_] using Turn.idle (.inr at_)
  | begin => simpa only [workStep, at_] using Turn.begins at_
  | plan d v => simpa only [workStep, at_] using Turn.arms d v at_
  | arm delta v => simpa only [workStep, at_] using Turn.starts delta v at_
  | readUpTo => simpa only [workStep, at_] using Turn.reads at_
  | hand e upTo => simpa only [workStep, at_] using Turn.hands e upTo at_
  | relock upTo => simpa only [workStep, at_] using Turn.relocks upTo at_

theorem Staffed.moved {s : State} (staffed : Staffed s) {old pc : WorkerPc} (at_ : s.worker = old)
    (present : old ≠ .absent) (there : pc ≠ .absent) (left : pc = .exited → s.stop = true)
    (plans : ∀ d v, pc = .plan d v → v = s.version ∧ ∃ e rest, s.pending = e :: rest ∧ d = e.key)
    (arms : ∀ d v, pc = .arm d v → v = s.version) (sleeps : restOf s.clock pc ≤ kMaxWaitMs) :
    Staffed { s with worker := pc } where
  started := by
    have begun := staffed.started.not.mp (at_ ▸ present)
    simp [there, begun]
  staffed := staffed.staffed
  left := left
  same := staffed.same
  plans := plans
  arms := arms
  sleeps := sleeps

theorem Turn.staffed {s s' : State} (turn : Turn s s') (staffed : Staffed s) : Staffed s' := by
  have awake : (0 : Int) ≤ kMaxWaitMs := by decide
  cases turn with
  | idle gone => exact staffed
  | waits at_ running empty => exact staffed
  | rests d at_ running early => exact staffed
  | begins at_ => exact staffed.moved at_ nofun nofun nofun nofun nofun awake
  | leaves at_ stop => exact staffed.moved at_ nofun nofun (fun _ => stop) nofun nofun awake
  | sleeps at_ running empty => exact staffed.moved at_ nofun nofun nofun nofun nofun awake
  | plans e rest at_ running first =>
    refine staffed.moved at_ nofun nofun nofun ?_ nofun (cappedWaitDeltaMs_le _ _)
    intro d v planned
    cases planned
    exact ⟨rfl, e, rest, first, rfl⟩
  | arms d v at_ =>
    refine staffed.moved at_ nofun nofun nofun nofun ?_ (cappedWaitDeltaMs_le _ _)
    intro delta w armed
    cases armed
    exact (staffed.plans d v at_).1
  | starts delta v at_ =>
    refine staffed.moved at_ nofun nofun nofun nofun nofun ?_
    have sleeps := staffed.sleeps
    simp only [patience, at_, restOf] at sleeps ⊢
    omega
  | wakes at_ =>
    rcases at_ with at_ | ⟨d, v, at_, -⟩
    · exact staffed.moved at_ nofun nofun nofun nofun nofun awake
    · exact staffed.moved at_ nofun nofun nofun nofun nofun awake
  | times d at_ running => exact staffed.moved at_ nofun nofun nofun nofun nofun awake
  | reads at_ => exact staffed.moved at_ nofun nofun nofun nofun nofun awake
  | ends upTo at_ late => exact staffed.moved at_ nofun nofun nofun nofun nofun awake
  | relocks upTo at_ => exact staffed.moved at_ nofun nofun nofun nofun nofun awake
  | takes e rest upTo at_ first due =>
    have begun : s.threadStarted = true := staffed.staffed (by simp [first])
    exact
      { started := by simp [begun]
        staffed := fun _ => begun
        left := nofun
        same := staffed.same
        plans := nofun
        arms := nofun
        sleeps := awake }
  | hands e upTo at_ =>
    have begun := staffed.started.not.mp (by simp [at_])
    exact
      { started := by simpa [State.putNow] using begun
        staffed := staffed.staffed
        left := nofun
        same := staffed.same
        plans := nofun
        arms := nofun
        sleeps := awake }

theorem staffed_next (s : State) (a : Act) (staffed : Staffed s) : Staffed (next s a) := by
  rcases next_cases s a with turned | aside
  · rw [turned]
    exact (turn_does s).staffed staffed
  · exact aside.staffed staffed

theorem turn_stop (s : State) : (turn s).stop = s.stop := by
  have turned := turn_does s
  generalize turn s = s' at turned ⊢
  cases turned <;> rfl

theorem stop_next {s : State} (a : Act) (stop : s.stop = true) : (next s a).stop = true := by
  rcases next_cases s a with turned | aside
  · rw [turned, turn_stop]
    exact stop
  · cases aside with
    | apart worker started pending version clock kept same => exact kept stop
    | insert e unlocked running worker started pending version clock kept stopped =>
      rw [kept]
      exact stop

theorem puts_next {s : State} {r : Put} (a : Act) (there : r ∈ s.puts) : r ∈ (next s a).puts := by
  have move := next_moves s a
  generalize next s a = s' at move ⊢
  cases move with
  | put | deliver => exact List.mem_append_left _ there
  | stays | tick | call | go | drop | insert | turn | take | stopping => exact there

theorem kept_by_give {P : State → Prop} (kept : ∀ s a, P s → P (next s a)) (s : State) (i : Input)
    (holds : P s) : P (give s i) := by
  cases i with
  | act a => exact kept s a holds
  | turn =>
    obtain ⟨a, same⟩ := turn_is_act s
    show P (turn s)
    rw [same]
    exact kept s a holds

/-- The entry has not been delivered although it is due and nothing keeps the worker asleep. -/
structure Overdue (e : Entry) (s : State) : Prop where
  placed : e ∈ s.pending ∨ ∃ upTo, s.worker = .hand e upTo
  due : e.key ≤ s.clock
  awake : patience s ≤ 0

/-- How many turns of the worker are left until it has delivered the entry: three for what is
    before it, and those of the round that takes it. A drain whose clock was read too early
    is gone through first. -/
def rankAt (e : Entry) (scheduled version : Nat) : WorkerPc → Nat
  | .hand x upTo => if x = e then 1 else 3 * scheduled + if e.key ≤ upTo then 2 else 8
  | .relock upTo => 3 * scheduled + if e.key ≤ upTo then 1 else 7
  | .drain upTo => 3 * scheduled + if e.key ≤ upTo then 0 else 6
  | .readUpTo => 3 * scheduled + 1
  | .waitUntil _ v => 3 * scheduled + if v = version then 2 else 6
  | .arm _ _ => 3 * scheduled + 3
  | .plan _ _ => 3 * scheduled + 4
  | .loopTest => 3 * scheduled + 5
  | .begin | .waitMsg | .absent | .exited => 3 * scheduled + 6

def rank (e : Entry) (s : State) : Nat := rankAt e s.pending.length s.version s.worker

theorem rankAt_le (e : Entry) (scheduled version : Nat) (pc : WorkerPc) :
    rankAt e scheduled version pc ≤ 3 * scheduled + 8 := by
  unfold rankAt
  cases pc with
  | hand | relock | drain | waitUntil =>
    dsimp only
    split_ifs <;> omega
  | _ =>
    dsimp only
    omega

/- An insertion makes the worker plan anew, and may have put an entry before this one. -/
theorem rankAt_inserted (e : Entry) (scheduled version : Nat) (pc : WorkerPc) :
    rankAt e (scheduled + 1) (version + 1) pc ≤ rankAt e scheduled version pc + 7 := by
  unfold rankAt
  cases pc with
  | hand | relock | drain | waitUntil =>
    dsimp only
    split_ifs <;> omega
  | _ =>
    dsimp only
    omega

theorem Overdue.positive {e : Entry} {s : State} (overdue : Overdue e s) : 0 < rank e s := by
  unfold rank
  rcases overdue.placed with pending | ⟨upTo, at_⟩
  · have some := List.length_pos_of_mem pending
    unfold rankAt
    cases s.worker with
    | hand =>
      dsimp only
      split_ifs <;> omega
    | _ =>
      dsimp only
      omega
  · rw [at_]
    simp [rankAt]

theorem first_le {s : State} (ordered : Ordered s) {x e : Entry} {rest : List Entry}
    (first : s.pending = x :: rest) (scheduled : e ∈ s.pending) : x.key ≤ e.key := by
  have sorted := ordered.sorted
  rw [first] at sorted scheduled
  rcases List.mem_cons.mp scheduled with same | later
  · rw [same]
  · rcases (List.pairwise_cons.mp sorted).1 e later with less | ⟨equal, -⟩
    · exact less.le
    · exact equal.le

theorem Overdue.goes {e : Entry} {s : State} {old pc : WorkerPc} (overdue : Overdue e s)
    (at_ : s.worker = old) (empty : ∀ upTo, old ≠ .hand e upTo) (awake : restOf s.clock pc ≤ 0)
    (less : rankAt e s.pending.length s.version pc + 1 ≤ rankAt e s.pending.length s.version old) :
    Overdue e { s with worker := pc } ∧ rank e { s with worker := pc } + 1 ≤ rank e s := by
  have scheduled : e ∈ s.pending := by
    rcases overdue.placed with pending | ⟨upTo, held⟩
    · exact pending
    · exact absurd (at_ ▸ held) (empty upTo)
  refine ⟨⟨.inl scheduled, overdue.due, awake⟩, ?_⟩
  unfold rank
  rw [at_]
  exact less

theorem Overdue.scheduled {e : Entry} {s : State} (overdue : Overdue e s)
    (empty : ∀ upTo, s.worker ≠ .hand e upTo) : e ∈ s.pending := by
  rcases overdue.placed with pending | ⟨upTo, held⟩
  · exact pending
  · exact absurd held (empty upTo)

theorem Turn.nearer {e : Entry} {s s' : State} (turn : Turn s s') (staffed : Staffed s)
    (ordered : Ordered s) (overdue : Overdue e s) (running : s.stop = false) :
    (∃ r ∈ s'.puts, r.call = e.call) ∨ Overdue e s' ∧ rank e s' + 1 ≤ rank e s := by
  have awake : (0 : Int) ≤ 0 := le_rfl
  have early := overdue.awake
  unfold patience at early
  cases turn with
  | idle gone =>
    have begun := staffed.staffed
      (List.ne_nil_of_mem (overdue.scheduled (by rcases gone with at_ | at_ <;> simp [at_])))
    rcases gone with absent | exited
    · simp [staffed.started.mp absent] at begun
    · simp [staffed.left exited] at running
  | waits at_ _ empty =>
    have scheduled := overdue.scheduled (by simp [at_])
    simp [empty] at scheduled
  | rests d at_ _ sleeping =>
    simp only [at_, restOf] at early
    omega
  | begins at_ => exact .inr (overdue.goes at_ nofun awake (by simp [rankAt]))
  | leaves at_ stop => simp [stop] at running
  | sleeps at_ _ empty =>
    have scheduled := overdue.scheduled (by simp [at_])
    simp [empty] at scheduled
  | plans x rest at_ _ first =>
    have before := first_le ordered first (overdue.scheduled (by simp [at_]))
    have due := overdue.due
    refine .inr (overdue.goes at_ nofun ?_ (by simp [rankAt]))
    exact (cappedWaitDeltaMs_due (by omega)).le
  | arms d v at_ =>
    rw [at_] at early
    exact .inr (overdue.goes at_ nofun early (by simp [rankAt]))
  | starts delta v at_ =>
    have same := staffed.arms delta v at_
    simp only [at_, restOf] at early
    refine .inr (overdue.goes at_ nofun ?_ (by simp [rankAt, same]))
    simp only [restOf]
    omega
  | wakes at_ =>
    rcases at_ with at_ | ⟨d, v, at_, stop | moved⟩
    · exact .inr (overdue.goes at_ nofun awake (by simp [rankAt]))
    · simp [stop] at running
    · refine .inr (overdue.goes at_ nofun awake ?_)
      simp [rankAt, Ne.symm moved]
  | times d at_ _ => exact .inr (overdue.goes at_ nofun awake (by simp [rankAt]))
  | reads at_ => exact .inr (overdue.goes at_ nofun awake (by simp [rankAt, overdue.due]))
  | relocks upTo at_ =>
    refine .inr (overdue.goes at_ nofun awake ?_)
    simp only [rankAt]
    split_ifs <;> omega
  | ends upTo at_ late =>
    have scheduled := overdue.scheduled (by simp [at_])
    obtain ⟨x, rest, first⟩ := List.exists_cons_of_ne_nil (List.ne_nil_of_mem scheduled)
    have before := first_le ordered first scheduled
    have passed := late x rest first
    refine .inr (overdue.goes at_ nofun awake ?_)
    have stale : ¬ e.key ≤ upTo := by omega
    simp [rankAt, stale]
  | takes x rest upTo at_ first due =>
    have scheduled := overdue.scheduled (by simp [at_])
    right
    by_cases same : x = e
    · subst same
      refine ⟨⟨.inr ⟨upTo, rfl⟩, overdue.due, awake⟩, ?_⟩
      simp only [rank, rankAt, at_, first, if_true, due, List.length_cons]
      omega
    · have later : e ∈ rest := by
        rw [first] at scheduled
        exact (List.mem_cons.mp scheduled).resolve_left fun here => same here.symm
      refine ⟨⟨.inl later, overdue.due, awake⟩, ?_⟩
      simp only [rank, rankAt, at_, first, if_neg same, List.length_cons]
      split_ifs <;> omega
  | hands x upTo at_ =>
    by_cases same : x = e
    · refine .inl ⟨⟨x.call, x.entry, s.clock, s.stopped⟩, ?_, by rw [same]⟩
      exact List.mem_append_right _ (List.mem_singleton.mpr rfl)
    · have scheduled := overdue.scheduled (by simp [at_, same])
      refine .inr ⟨⟨.inl scheduled, overdue.due, awake⟩, ?_⟩
      simp only [rank, rankAt, at_, if_neg same, State.putNow]
      split_ifs <;> omega

theorem Overdue.present {e : Entry} {s : State} (overdue : Overdue e s) (staffed : Staffed s) :
    s.threadStarted = true := by
  rcases overdue.placed with pending | ⟨upTo, at_⟩
  · exact staffed.staffed (List.ne_nil_of_mem pending)
  · simpa using staffed.started.not.mp (by simp [at_])

theorem Aside.nearer {e : Entry} {s s' : State} (aside : Aside s s') (staffed : Staffed s)
    (ordered : Ordered s) (overdue : Overdue e s) :
    Overdue e s' ∧ rank e s' + 7 * s.version ≤ rank e s + 7 * s'.version := by
  have due := overdue.due
  have early := overdue.awake
  unfold patience at early
  cases aside with
  | apart worker started pending version clock stop same =>
    refine ⟨⟨by rw [pending, worker]; exact overdue.placed, by omega, ?_⟩, ?_⟩
    · unfold patience
      rw [worker]
      cases at_ : s.worker with
      | plan d v =>
        obtain ⟨-, x, rest, first, rfl⟩ := staffed.plans d v at_
        have before := first_le ordered first (overdue.scheduled (by simp [at_]))
        exact (cappedWaitDeltaMs_due (by omega)).le
      | waitUntil d v =>
        simp only [at_, restOf] at early ⊢
        omega
      | arm delta v =>
        rw [at_] at early
        exact early
      | _ => exact le_rfl
    · unfold rank
      rw [pending, version, worker]
  | insert x unlocked running worker started pending version clock stop stopped =>
    rw [if_pos (overdue.present staffed)] at worker
    refine ⟨⟨?_, by omega, ?_⟩, ?_⟩
    · rw [pending, worker]
      exact overdue.placed.imp_left fun there => mem_emplace.mpr (.inr there)
    · unfold patience
      rw [worker, clock]
      exact early
    · have more := rankAt_inserted e s.pending.length s.version s.worker
      have length : s'.pending.length = s.pending.length + 1 := by
        rw [pending]
        exact (List.perm_orderedInsert _ x s.pending).length_eq
      unfold rank
      rw [length, version, worker]
      omega

structure Waiting (e : Entry) (s : State) : Prop where
  staffed : Staffed s
  ordered : Ordered s
  overdue : Overdue e s

def Delivered (e : Entry) (s : State) : Prop := ∃ r ∈ s.puts, r.call = e.call

def Running (s : State) : Prop := s.stop = false

theorem waiting_step {e : Entry} {s : State} (i : Input) (waiting : Waiting e s)
    (running : Running (give s i)) :
    Delivered e (give s i) ∨ Waiting e (give s i) ∧
      rank e (give s i) + isTurn i + 7 * s.version ≤ rank e s + 7 * (give s i).version := by
  have staffed : Staffed (give s i) := kept_by_give staffed_next s i waiting.staffed
  have ordered : Ordered (give s i) :=
    kept_by_give (fun s a => (next_moves s a).ordered) s i waiting.ordered
  have turned : ∀ {s' : State}, s' = turn s → Running s' →
      Delivered e s' ∨ Overdue e s' ∧ rank e s' + 1 + 7 * s.version ≤ rank e s + 7 * s'.version := by
    intro s' same running
    subst same
    have still : s.stop = false := by rwa [Running, turn_stop] at running
    have version : (turn s).version = s.version := by
      have turned := turn_does s
      generalize turn s = s' at turned ⊢
      cases turned <;> rfl
    rcases (turn_does s).nearer waiting.staffed waiting.ordered waiting.overdue still with
      done | ⟨overdue, less⟩
    · exact .inl done
    · exact .inr ⟨overdue, by omega⟩
  cases i with
  | turn =>
    rcases turned rfl running with done | ⟨overdue, less⟩
    · exact .inl done
    · exact .inr ⟨⟨staffed, ordered, overdue⟩, less⟩
  | act a =>
    rcases next_cases s a with same | aside
    · rcases turned same running with done | ⟨overdue, less⟩
      · exact .inl done
      · refine .inr ⟨⟨staffed, ordered, overdue⟩, ?_⟩
        simp only [give, isTurn] at less ⊢
        omega
    · obtain ⟨overdue, less⟩ := aside.nearer waiting.staffed waiting.ordered waiting.overdue
      exact .inr ⟨⟨staffed, ordered, overdue⟩, less⟩

theorem staffed_reached {clock : Int} {acts : List Act} {s : State}
    (reached : s ∈ states next (fresh clock) acts) : Staffed s :=
  invariant_reached staffed_next (staffed_fresh clock) acts s reached

theorem delivered_stays {e : Entry} (s : State) (i : Input) (done : Delivered e s) :
    Delivered e (give s i) := by
  refine kept_by_give ?_ s i done
  rintro s a ⟨r, there, same⟩
  exact ⟨r, puts_next a there, same⟩

theorem running_before (s : State) (i : Input) (running : Running (give s i)) : Running s := by
  by_contra stopped
  have stop : s.stop = true := by simpa [Running] using stopped
  have after : (give s i).stop = true :=
    kept_by_give (P := fun s => s.stop = true) (fun s a => stop_next a) s i stop
  simp [Running, after] at running

/- The worker never sleeps for more than a day, and once an entry is due and the sleep it was
   due in is over, whatever else happens the worker delivers it after a number of its turns
   that only insertions make larger, unless `stop()` is called. -/
theorem overdue_delivered {clock : Int} {acts : List Act} {s : State} (e : Entry)
    (inputs : List Input) (reached : s ∈ states next (fresh clock) acts) :
    patience s ≤ kMaxWaitMs ∧
      (e ∈ s.pending → e.key ≤ s.clock → patience s ≤ 0 →
        (inputs.foldl give s).stop = false →
        3 * s.pending.length + 8 + 7 * ((inputs.foldl give s).version - s.version) ≤ turns inputs →
        ∃ r ∈ (inputs.foldl give s).puts, r.call = e.call) := by
  have staffed := staffed_reached reached
  refine ⟨staffed.sleeps, ?_⟩
  intro scheduled due awake running enough
  have sound := invariant_reached sound_next (sound_start clock) acts s reached
  have waiting : Waiting e s := ⟨staffed, sound.ordered, ⟨.inl scheduled, due, awake⟩⟩
  have start : rank e s ≤ 3 * s.pending.length + 8 := rankAt_le e _ _ _
  have done : Delivered e (inputs.foldl give s) :=
    reached_within isTurn (rank e) (fun s => 7 * s.version) Running running_before delivered_stays
      (fun s i => waiting_step i) (fun s waiting => waiting.overdue.positive) waiting running (by
        unfold turns at enough
        omega)
  exact done

def slept : List Act :=
  [.call 0 delayed, .caller 0, .caller 0, .caller 0, .work, .work, .work, .work, .tick 5]

theorem overdue_delivered_delayed :
    ∃ r ∈ ((List.replicate 11 Input.turn).foldl give (slept.foldl next (fresh 0))).puts,
      r.call = 0 := by
  have all := overdue_delivered ⟨5, 0, 0, delayed⟩ (List.replicate 11 .turn)
    (last_state_mem next (fresh 0) slept)
  exact all.2 (by decide) (by decide) (by decide) (by decide)
    (by decide)

/-- How many turns of the worker are left until it is gone once `stop()` was called: a drain
    is not broken off. -/
def leavingAt (scheduled : Nat) : WorkerPc → Nat
  | .absent | .exited => 0
  | .loopTest => 1
  | .begin | .waitMsg | .waitUntil _ _ => 2
  | .arm _ _ => 3
  | .plan _ _ => 4
  | .drain _ => 3 * scheduled + 2
  | .readUpTo | .relock _ => 3 * scheduled + 3
  | .hand _ _ => 3 * scheduled + 4

def leaving (s : State) : Nat := leavingAt s.pending.length s.worker

/-- `stop()` was called and the worker is still there. -/
structure Leaving (s : State) : Prop where
  staffed : Staffed s
  stop : s.stop = true
  present : s.worker ≠ .absent
  inside : s.worker ≠ .exited

structure Gone (s : State) : Prop where
  staffed : Staffed s
  stop : s.stop = true
  gone : s.worker = .absent ∨ s.worker = .exited

theorem Leaving.positive {s : State} (here : Leaving s) : 0 < leaving s := by
  have present := here.present
  have inside := here.inside
  unfold leaving leavingAt
  cases at_ : s.worker with
  | absent => exact absurd at_ present
  | exited => exact absurd at_ inside
  | _ =>
    dsimp only
    omega

theorem Turn.leaves_soon {s s' : State} (turn : Turn s s') (here : Leaving s) :
    s'.worker = .exited ∨ (s'.worker ≠ .absent ∧ s'.worker ≠ .exited) ∧
      leaving s' + 1 ≤ leaving s := by
  have stop := here.stop
  cases turn with
  | idle gone => exact absurd gone (by simp [here.present, here.inside])
  | waits at_ running empty => simp [stop] at running
  | rests d at_ running early => simp [stop] at running
  | sleeps at_ running empty => simp [stop] at running
  | plans e rest at_ running first => simp [stop] at running
  | times d at_ running => simp [stop] at running
  | leaves at_ => exact .inl rfl
  | wakes at_ =>
    rcases at_ with at_ | ⟨d, v, at_, -⟩
    · exact .inr ⟨⟨by simp, by simp⟩, by simp [leaving, leavingAt, at_]⟩
    · exact .inr ⟨⟨by simp, by simp⟩, by simp [leaving, leavingAt, at_]⟩
  | takes e rest upTo at_ first due =>
    refine .inr ⟨⟨by simp, by simp⟩, ?_⟩
    simp only [leaving, leavingAt, at_, first, List.length_cons]
    omega
  | begins at_ | arms d v at_ | starts delta v at_ | reads at_ | ends upTo at_ late
  | hands e upTo at_ | relocks upTo at_ =>
    refine .inr ⟨⟨by simp, by simp⟩, ?_⟩
    simp only [leaving, leavingAt, at_, State.putNow]
    omega

theorem Aside.apart_after_stop {s s' : State} (aside : Aside s s') (staffed : Staffed s)
    (stop : s.stop = true) : s'.worker = s.worker ∧ s'.pending = s.pending := by
  cases aside with
  | apart worker started pending => exact ⟨worker, pending⟩
  | insert e unlocked running =>
    rw [staffed.same, stop] at running
    cases running

theorem gone_stays (s : State) (i : Input) (gone : Gone s) : Gone (give s i) := by
  refine kept_by_give ?_ s i gone
  intro s a gone
  refine ⟨staffed_next s a gone.staffed, stop_next a gone.stop, ?_⟩
  rcases next_cases s a with turned | aside
  · rw [turned]
    have idle : turn s = s := by
      rcases gone.gone with at_ | at_
      · simp [turn, workStep, at_]
      · simp [turn, workStep, at_]
    rw [idle]
    exact gone.gone
  · rw [(aside.apart_after_stop gone.staffed gone.stop).1]
    exact gone.gone

theorem leaving_step {s : State} (i : Input) (here : Leaving s) :
    Gone (give s i) ∨ Leaving (give s i) ∧ leaving (give s i) + isTurn i ≤ leaving s := by
  have staffed : Staffed (give s i) := kept_by_give staffed_next s i here.staffed
  have stop : (give s i).stop = true :=
    kept_by_give (P := fun s => s.stop = true) (fun s a => stop_next a) s i here.stop
  have turned : ∀ {s' : State}, s' = turn s → s'.worker = .exited ∨
      (s'.worker ≠ .absent ∧ s'.worker ≠ .exited) ∧ leaving s' + 1 ≤ leaving s := by
    intro s' same
    rw [same]
    exact (turn_does s).leaves_soon here
  cases i with
  | turn =>
    rcases turned rfl with out | ⟨⟨present, inside⟩, less⟩
    · exact .inl ⟨staffed, stop, .inr out⟩
    · exact .inr ⟨⟨staffed, stop, present, inside⟩, less⟩
  | act a =>
    rcases next_cases s a with same | aside
    · rcases turned same with out | ⟨⟨present, inside⟩, less⟩
      · exact .inl ⟨staffed, stop, .inr out⟩
      · exact .inr ⟨⟨staffed, stop, present, inside⟩, by simp only [give, isTurn]; omega⟩
    · obtain ⟨worker, pending⟩ := aside.apart_after_stop here.staffed here.stop
      have same : leaving (next s a) = leaving s := by
        unfold leaving
        rw [worker, pending]
      refine .inr ⟨⟨staffed, stop, ?_, ?_⟩, same.le⟩
      · exact fun absent => here.present (worker.symm.trans absent)
      · exact fun exited => here.inside (worker.symm.trans exited)

/- Once `stop()` has been called the worker is gone after a number of its turns that nobody can
   make larger, and then every `stop()` returns at its next step. -/
theorem stop_settles {clock : Int} {acts : List Act} {s : State} (k : Nat) (inputs : List Input)
    (reached : s ∈ states next (fresh clock) acts) (stop : s.stop = true)
    (enough : 3 * s.pending.length + 4 ≤ turns inputs) :
    ((inputs.foldl give s).worker = .absent ∨ (inputs.foldl give s).worker = .exited) ∧
      (next (inputs.foldl give s) (.stop k)).stops k = .returned := by
  have staffed := staffed_reached reached
  have gone : Gone (inputs.foldl give s) := by
    by_cases out : s.worker = .absent ∨ s.worker = .exited
    · exact kept_from gone_stays ⟨staffed, stop, out⟩ inputs
    · push Not at out
      have most : leaving s ≤ 3 * s.pending.length + 4 := by
        unfold leaving leavingAt
        cases s.worker <;> dsimp only <;> omega
      exact reached_within isTurn leaving (fun _ => 0) (fun _ => True) (fun _ _ _ => trivial)
        gone_stays (fun s i here _ => leaving_step i here)
        (fun s here => here.positive) ⟨staffed, stop, out.1, out.2⟩ trivial (by
          unfold turns at enough
          omega)
  refine ⟨gone.gone, ?_⟩
  generalize inputs.foldl give s = after at gone ⊢
  have unlocked : after.worker.locked = false := by
    rcases gone.gone with at_ | at_ <;> rw [at_] <;> rfl
  have stopped : after.stopped = true := gone.staffed.same.trans gone.stop
  have joined : ¬ (after.threadStarted = true ∧ after.worker ≠ .exited) := by
    rintro ⟨begun, inside⟩
    rcases gone.gone with absent | exited
    · simp [gone.staffed.started.mp absent] at begun
    · exact inside exited
  simp only [next, stopStep]
  cases at_ : after.stops k with
  | start => simp [unlocked, stopped]
  | join => simp [joined]
  | returned => exact at_

def interrupted : List Act := slept ++ [.stop 0]

theorem stop_settles_interrupted :
    (next ((List.replicate 7 Input.turn).foldl give (interrupted.foldl next (fresh 0)))
      (.stop 0)).stops 0 = .returned :=
  (stop_settles 0 (List.replicate 7 .turn) (last_state_mem next (fresh 0) interrupted)
    (by decide) (by decide)).2

end TinyMqSchedulerProgress
