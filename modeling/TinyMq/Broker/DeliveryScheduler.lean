import Mathlib.Data.List.Sort
import TinyMq.Lib.Machines
import TinyMq.Broker.Message

/-!
`DeliveryScheduler` as its threads see it: any number of `enqueueOrSchedule`
calls, the worker's `run()`, any number of `stop()` calls and a clock that never
goes back. The worker's steps follow the source; it holds the mutex except where
it waits or hands a message over, and a caller's critical section, which reads no
clock and waits for nothing, is one step. A step that is not enabled changes
nothing. `_version` does not wrap round.
-/
namespace TinyMqDeliveryScheduler
open TinyMqMessage Machines

structure Given where
  queue : Nat
  msg : Option Message
  deriving DecidableEq

def Given.deliveryTime (g : Given) : Int :=
  match g.msg with
  | some m => m.content.headers.deliveryTime
  | none => 0

def Given.isPersistent (g : Given) : Bool :=
  match g.msg with
  | some m => m.isPersistent
  | none => false

/-- Header and cached bytes of a delivery time that is taken for garbage. -/
def Given.reset (g : Given) : Given :=
  { g with msg := g.msg.map fun m => (m.setDeliveryTime 0).patchCachedDeliveryTime 0 }

/-- An entry of `_pending`, with its key, the number of its call and the
    number of insertions before it. -/
structure Entry where
  key : Int
  call : Nat
  stamp : Nat
  entry : Given
  deriving DecidableEq

structure Put where
  call : Nat
  entry : Given
  clock : Int
  stopped : Bool
  deriving DecidableEq

inductive CallPc where
  | unborn
  | clamp (g : Given)
  | due (g : Given)
  | put (g : Given)
  | lock (g : Given)
  | returned
  deriving DecidableEq

inductive WorkerPc where
  | absent
  | begin
  | loopTest
  | plan (deadlineMs : Int) (startVersion : Nat)
  | arm (deltaMs : Int) (startVersion : Nat)
  | waitMsg
  | waitUntil (deadline : Int) (startVersion : Nat)
  | readUpTo
  | drain (deliverUpToMs : Int)
  | hand (e : Entry) (deliverUpToMs : Int)
  | relock (deliverUpToMs : Int)
  | exited
  deriving DecidableEq

inductive StopPc where
  | start
  | join
  | returned
  deriving DecidableEq

/-- The last three fields say what happened: what each call was given and when,
    what was put into a queue, and the persistent messages dropped after `stop()`. -/
structure State where
  clock : Int := 0
  stop : Bool := false
  stopped : Bool := false
  threadStarted : Bool := false
  version : Nat := 0
  pending : List Entry := []
  worker : WorkerPc := .absent
  calls : Nat → CallPc := fun _ => .unborn
  stops : Nat → StopPc := fun _ => .start
  given : Nat → Option (Given × Int) := fun _ => none
  puts : List Put := []
  dropped : List Nat := []

def WorkerPc.locked : WorkerPc → Bool
  | .loopTest | .plan _ _ | .arm _ _ | .readUpTo | .drain _ => true
  | _ => false

def kMaxWaitMs : Int := 86400000

def cappedWaitDeltaMs (deadlineMs nowMsValue : Int) : Int :=
  if deadlineMs ≤ nowMsValue then 0
  else if nowMsValue + kMaxWaitMs ≤ deadlineMs then kMaxWaitMs
  else deadlineMs - nowMsValue

/-- `std::multimap::emplace`: behind the entries of the same key. -/
def emplace (e : Entry) (pending : List Entry) : List Entry :=
  pending.orderedInsert (fun a b => a.key < b.key) e

inductive Act where
  | tick (ms : Nat)
  | call (t : Nat) (g : Given)
  | caller (t : Nat)
  | work
  | wake
  | timeout
  | stop (k : Nat)

def State.goto (s : State) (t : Nat) (pc : CallPc) : State :=
  { s with calls := Function.update s.calls t pc }

/-- `enqueueOrSchedule` is entered; a delivery time that is not positive skips the clamp. -/
def callStep (s : State) (t : Nat) (g : Given) : State :=
  if s.calls t = .unborn then
    { s.goto t (if 0 < g.deliveryTime then .clamp g else .due g) with
        given := Function.update s.given t (some (g, s.clock)) }
  else s

def State.putNow (s : State) (t : Nat) (g : Given) : State :=
  { s with puts := s.puts ++ [⟨t, g, s.clock, s.stopped⟩] }

/-- The critical section of `enqueueOrSchedule`. -/
def scheduleStep (s : State) (t : Nat) (g : Given) : State :=
  if s.stopped then
    if g.isPersistent then { s.goto t .returned with dropped := s.dropped ++ [t] }
    else s.goto t (.put g)
  else
    { s.goto t .returned with
        worker := if s.threadStarted then s.worker else .begin, threadStarted := true,
        pending := emplace ⟨g.deliveryTime, t, s.version, g⟩ s.pending, version := s.version + 1 }

def callerStep (s : State) (t : Nat) : State :=
  match s.calls t with
  | .unborn | .returned => s
  | .clamp g =>
    if kMaxFutureHeaderMs < g.deliveryTime - s.clock then s.goto t (.put g.reset)
    else s.goto t (.due g)
  | .due g =>
    if g.deliveryTime = 0 ∨ g.deliveryTime ≤ s.clock then s.goto t (.put g) else s.goto t (.lock g)
  | .put g => (s.putNow t g).goto t .returned
  | .lock g => if s.worker.locked then s else scheduleStep s t g

def workStep (s : State) : State :=
  match s.worker with
  | .absent | .waitMsg | .waitUntil _ _ | .exited => s
  | .begin => { s with worker := .loopTest }
  | .loopTest =>
    if s.stop then { s with worker := .exited }
    else match s.pending with
      | [] => { s with worker := .waitMsg }
      | e :: _ => { s with worker := .plan e.key s.version }
  | .plan deadlineMs startVersion =>
    { s with worker := .arm (cappedWaitDeltaMs deadlineMs s.clock) startVersion }
  | .arm deltaMs startVersion => { s with worker := .waitUntil (s.clock + deltaMs) startVersion }
  | .readUpTo => { s with worker := .drain s.clock }
  | .drain upTo =>
    match s.pending with
    | [] => { s with worker := .loopTest }
    | e :: rest =>
      if e.key ≤ upTo then { s with pending := rest, worker := .hand e upTo }
      else { s with worker := .loopTest }
  | .hand e upTo => { s.putNow e.call e.entry with worker := .relock upTo }
  | .relock upTo => { s with worker := .drain upTo }

/-- A wait ends because its predicate holds. -/
def wakeStep (s : State) : State :=
  match s.worker with
  | .waitMsg => if s.stop ∨ s.pending ≠ [] then { s with worker := .loopTest } else s
  | .waitUntil _ startVersion =>
    if s.stop ∨ s.version ≠ startVersion then { s with worker := .loopTest } else s
  | _ => s

/-- A wait ends at its deadline with its predicate false. -/
def timeoutStep (s : State) : State :=
  match s.worker with
  | .waitUntil deadline startVersion =>
    if ¬ s.stop ∧ s.version = startVersion ∧ deadline ≤ s.clock then { s with worker := .readUpTo }
    else s
  | _ => s

def stopStep (s : State) (k : Nat) : State :=
  let goto pc := Function.update s.stops k pc
  match s.stops k with
  | .start =>
    if s.worker.locked then s
    else if s.stopped then { s with stops := goto .returned }
    else { s with stop := true, stopped := true, stops := goto .join }
  | .join =>
    if s.threadStarted ∧ s.worker ≠ .exited then s else { s with stops := goto .returned }
  | .returned => s

def next (s : State) : Act → State
  | .tick ms => { s with clock := s.clock + ms }
  | .call t g => callStep s t g
  | .caller t => callerStep s t
  | .work => workStep s
  | .wake => wakeStep s
  | .timeout => timeoutStep s
  | .stop k => stopStep s k

def fresh (clock : Int) : State := { clock := clock }

inductive Local (s : State) : CallPc → CallPc → Prop where
  | reset (g : Given) (far : kMaxFutureHeaderMs < g.deliveryTime - s.clock) :
      Local s (.clamp g) (.put g.reset)
  | near (g : Given) (near : ¬ kMaxFutureHeaderMs < g.deliveryTime - s.clock) :
      Local s (.clamp g) (.due g)
  | now (g : Given) (due : g.deliveryTime = 0 ∨ g.deliveryTime ≤ s.clock) :
      Local s (.due g) (.put g)
  | later (g : Given) (later : ¬ (g.deliveryTime = 0 ∨ g.deliveryTime ≤ s.clock)) :
      Local s (.due g) (.lock g)
  | late (g : Given) (stopped : s.stopped = true) (transient : g.isPersistent = false) :
      Local s (.lock g) (.put g)

/-- The worker's clock reading for the drain, if it has one. -/
def WorkerPc.upTo : WorkerPc → Option Int
  | .drain t | .relock t | .hand _ t => some t
  | _ => none

def WorkerPc.held : WorkerPc → Option Entry
  | .hand e _ => some e
  | _ => none

inductive Move (s : State) : Act → State → Prop where
  | stays (a : Act) : Move s a s
  | tick (ms : Nat) : Move s (.tick ms) { s with clock := s.clock + ms }
  | call (t : Nat) (g : Given) (pc : CallPc) (at_ : s.calls t = .unborn)
      (entry : pc = .clamp g ∧ 0 < g.deliveryTime ∨ pc = .due g ∧ g.deliveryTime ≤ 0) :
      Move s (.call t g)
        { s.goto t pc with given := Function.update s.given t (some (g, s.clock)) }
  | go (t : Nat) (pc : CallPc) (step : Local s (s.calls t) pc) : Move s (.caller t) (s.goto t pc)
  | put (t : Nat) (g : Given) (at_ : s.calls t = .put g) :
      Move s (.caller t) ((s.putNow t g).goto t .returned)
  | drop (t : Nat) (g : Given) (at_ : s.calls t = .lock g) (stopped : s.stopped = true)
      (persistent : g.isPersistent = true) :
      Move s (.caller t) { s.goto t .returned with dropped := s.dropped ++ [t] }
  | insert (t : Nat) (g : Given) (pc : WorkerPc) (at_ : s.calls t = .lock g)
      (running : s.stopped = false) (worker : pc = s.worker ∨ pc = .begin ∧ s.threadStarted = false) :
      Move s (.caller t)
        { s.goto t .returned with
            worker := pc, threadStarted := true,
            pending := emplace ⟨g.deliveryTime, t, s.version, g⟩ s.pending, version := s.version + 1 }
  | turn (a : Act) (pc : WorkerPc) (from_ : s.worker.held = none) (to_ : pc.held = none)
      (reading : pc.upTo = none ∨ pc.upTo = s.worker.upTo ∨ pc.upTo = some s.clock)
      (started : s.worker ≠ .absent) :
      Move s a { s with worker := pc }
  | take (e : Entry) (rest : List Entry) (upTo : Int) (at_ : s.worker = .drain upTo)
      (first : s.pending = e :: rest) (due : e.key ≤ upTo) :
      Move s .work { s with pending := rest, worker := .hand e upTo }
  | deliver (e : Entry) (upTo : Int) (at_ : s.worker = .hand e upTo) :
      Move s .work { s.putNow e.call e.entry with worker := .relock upTo }
  | stopping (k : Nat) (stop stopped : Bool) (stops : Nat → StopPc)
      (monotone : s.stopped = true → stopped = true) :
      Move s (.stop k) { s with stop := stop, stopped := stopped, stops := stops }

theorem callStep_moves (s : State) (t : Nat) (g : Given) : Move s (.call t g) (callStep s t g) := by
  unfold callStep
  split
  next at_ =>
    refine .call t g _ at_ ?_
    by_cases positive : 0 < g.deliveryTime
    · exact .inl ⟨if_pos positive, positive⟩
    · exact .inr ⟨if_neg positive, by omega⟩
  next => exact .stays _

theorem scheduleStep_moves {s : State} {t : Nat} {g : Given} (at_ : s.calls t = .lock g) :
    Move s (.caller t) (scheduleStep s t g) := by
  unfold scheduleStep
  by_cases stopped : s.stopped = true
  · rw [if_pos stopped]
    by_cases persistent : g.isPersistent = true
    · rw [if_pos persistent]
      exact .drop t g at_ stopped persistent
    · rw [if_neg persistent]
      exact .go t _ (at_ ▸ .late g stopped (by simpa using persistent))
  · rw [if_neg stopped]
    refine .insert t g _ at_ (by simpa using stopped) ?_
    by_cases started : s.threadStarted = true
    · exact .inl (if_pos started)
    · exact .inr ⟨if_neg started, by simpa using started⟩

theorem callerStep_moves (s : State) (t : Nat) : Move s (.caller t) (callerStep s t) := by
  unfold callerStep
  cases at_ : s.calls t with
  | unborn => exact .stays _
  | returned => exact .stays _
  | clamp g =>
    dsimp only
    split
    next far => exact .go t _ (at_ ▸ .reset g far)
    next near => exact .go t _ (at_ ▸ .near g near)
  | due g =>
    dsimp only
    split
    next due => exact .go t _ (at_ ▸ .now g due)
    next later => exact .go t _ (at_ ▸ .later g later)
  | put g => exact .put t g at_
  | lock g =>
    dsimp only
    split
    next => exact .stays _
    next => exact scheduleStep_moves at_

theorem turns {s : State} {a : Act} {old pc : WorkerPc} (at_ : s.worker = old)
    (from_ : old.held = none) (to_ : pc.held = none)
    (reading : pc.upTo = none ∨ pc.upTo = old.upTo ∨ pc.upTo = some s.clock)
    (started : old ≠ .absent) : Move s a { s with worker := pc } := by
  subst at_
  exact .turn a pc from_ to_ reading started

theorem workStep_moves (s : State) : Move s .work (workStep s) := by
  unfold workStep
  cases at_ : s.worker with
  | absent => exact .stays _
  | waitMsg => exact .stays _
  | waitUntil deadline startVersion => exact .stays _
  | exited => exact .stays _
  | hand e upTo => exact .deliver e upTo at_
  | loopTest =>
    dsimp only
    split
    next => exact turns at_ rfl rfl (.inl rfl) nofun
    next =>
      split
      next => exact turns at_ rfl rfl (.inl rfl) nofun
      next => exact turns at_ rfl rfl (.inl rfl) nofun
  | drain upTo =>
    dsimp only
    split
    next => exact turns at_ rfl rfl (.inl rfl) nofun
    next e rest first =>
      split
      next due => exact .take e rest upTo at_ first due
      next => exact turns at_ rfl rfl (.inl rfl) nofun
  | readUpTo => exact turns at_ rfl rfl (.inr (.inr rfl)) nofun
  | relock upTo => exact turns at_ rfl rfl (.inr (.inl rfl)) nofun
  | begin => exact turns at_ rfl rfl (.inl rfl) nofun
  | plan deadlineMs startVersion => exact turns at_ rfl rfl (.inl rfl) nofun
  | arm deltaMs startVersion => exact turns at_ rfl rfl (.inl rfl) nofun

theorem wakeStep_moves (s : State) : Move s .wake (wakeStep s) := by
  unfold wakeStep
  split
  next at_ =>
    split
    next => exact turns at_ rfl rfl (.inl rfl) nofun
    next => exact .stays _
  next at_ =>
    split
    next => exact turns at_ rfl rfl (.inl rfl) nofun
    next => exact .stays _
  next => exact .stays _

theorem timeoutStep_moves (s : State) : Move s .timeout (timeoutStep s) := by
  unfold timeoutStep
  split
  next at_ =>
    split
    next => exact turns at_ rfl rfl (.inl rfl) nofun
    next => exact .stays _
  next => exact .stays _

theorem stopStep_moves (s : State) (k : Nat) : Move s (.stop k) (stopStep s k) := by
  unfold stopStep
  cases s.stops k with
  | start =>
    dsimp only
    split
    next => exact .stays _
    next =>
      split
      next => exact .stopping k s.stop s.stopped _ id
      next => exact .stopping k true true _ fun _ => rfl
  | join =>
    dsimp only
    split
    next => exact .stays _
    next => exact .stopping k s.stop s.stopped _ id
  | returned => exact .stays _

theorem next_moves (s : State) (a : Act) : Move s a (next s a) := by
  cases a with
  | tick ms => exact .tick ms
  | call t g => exact callStep_moves s t g
  | caller t => exact callerStep_moves s t
  | work => exact workStep_moves s
  | wake => exact wakeStep_moves s
  | timeout => exact timeoutStep_moves s
  | stop k => exact stopStep_moves s k

def CallPc.active : CallPc → Nat
  | .unborn | .returned => 0
  | _ => 1

def CallPc.born : CallPc → Nat
  | .unborn => 0
  | _ => 1

/-- In how many places the message of this call is: in the call itself, in `_pending`, in the
    worker's hand, in its queue, dropped. -/
def State.places (s : State) (t : Nat) : Nat :=
  (s.calls t).active + s.pending.countP (·.call = t) + s.worker.held.toList.countP (·.call = t) +
    s.puts.countP (·.call = t) + s.dropped.count t

/-- The worker is there only when it was started; every message is in one place. -/
structure Placed (s : State) : Prop where
  absent : s.threadStarted = false → s.worker = .absent
  once : ∀ t, s.places t = (s.calls t).born

theorem placed_start (clock : Int) : Placed (fresh clock) where
  absent _ := rfl
  once _ := rfl

theorem Local.active {s : State} {old pc : CallPc} (step : Local s old pc) :
    old.active = 1 ∧ old.born = 1 ∧ pc.active = 1 ∧ pc.born = 1 := by
  cases step <;> exact ⟨rfl, rfl, rfl, rfl⟩

theorem mem_emplace {e x : Entry} {pending : List Entry} :
    x ∈ emplace e pending ↔ x = e ∨ x ∈ pending := by
  unfold emplace
  rw [(List.perm_orderedInsert _ e pending).mem_iff, List.mem_cons]

theorem countP_emplace (e : Entry) (pending : List Entry) (t : Nat) :
    (emplace e pending).countP (·.call = t) =
      pending.countP (·.call = t) + if e.call = t then 1 else 0 := by
  have same := (List.perm_orderedInsert (fun a b : Entry => a.key < b.key) e pending).countP_eq
    (fun x => decide (x.call = t))
  unfold emplace
  rw [same, List.countP_cons]
  simp

theorem Move.placed {s s' : State} {a : Act} (move : Move s a s') (placed : Placed s) :
    Placed s' := by
  cases move with
  | stays => exact placed
  | tick ms => exact ⟨placed.absent, placed.once⟩
  | stopping k stop stopped stops monotone => exact ⟨placed.absent, placed.once⟩
  | call t g pc at_ entry =>
    refine ⟨placed.absent, ?_⟩
    intro u
    have once := placed.once u
    by_cases same : u = t
    · subst same
      have young : pc.active = 1 ∧ pc.born = 1 := by
        rcases entry with ⟨rfl, -⟩ | ⟨rfl, -⟩ <;> exact ⟨rfl, rfl⟩
      have unborn : (s.calls u).active = 0 ∧ (s.calls u).born = 0 := by
        rw [at_]
        exact ⟨rfl, rfl⟩
      simp only [State.places, State.goto, Function.update_self] at once ⊢
      omega
    · simpa [State.places, State.goto, Function.update_of_ne same] using once
  | go t pc step =>
    refine ⟨placed.absent, ?_⟩
    intro u
    have once := placed.once u
    by_cases same : u = t
    · subst same
      have kinds := step.active
      simp only [State.places, State.goto, Function.update_self] at once ⊢
      omega
    · simpa [State.places, State.goto, Function.update_of_ne same] using once
  | put t g at_ =>
    refine ⟨placed.absent, ?_⟩
    intro u
    have once := placed.once u
    by_cases same : u = t
    · subst same
      simp only [State.places, State.goto, State.putNow, Function.update_self, at_, CallPc.active,
        CallPc.born, List.countP_append, List.countP_singleton, decide_true, if_true] at once ⊢
      omega
    · simpa [State.places, State.goto, State.putNow, Function.update_of_ne same, Ne.symm same]
        using once
  | drop t g at_ stopped persistent =>
    refine ⟨placed.absent, ?_⟩
    intro u
    have once := placed.once u
    by_cases same : u = t
    · subst same
      simp only [State.places, State.goto, Function.update_self, at_, CallPc.active, CallPc.born,
        List.count_append, List.count_singleton_self] at once ⊢
      omega
    · simpa [State.places, State.goto, Function.update_of_ne same, Ne.symm same] using once
  | insert t g pc at_ running worker =>
    have held : pc.held = s.worker.held := by
      rcases worker with same | ⟨same, young⟩
      · rw [same]
      · rw [same, placed.absent young]
        rfl
    refine ⟨by simp, ?_⟩
    intro u
    have once := placed.once u
    by_cases same : u = t
    · subst same
      simp only [State.places, State.goto, Function.update_self, at_, CallPc.active, CallPc.born,
        countP_emplace, held, if_true] at once ⊢
      omega
    · simpa [State.places, State.goto, Function.update_of_ne same, countP_emplace, held,
        Ne.symm same] using once
  | turn a pc from_ to_ reading started =>
    refine ⟨fun young => absurd (placed.absent young) started, ?_⟩
    intro u
    simpa [State.places, from_, to_] using placed.once u
  | take e rest upTo at_ first due =>
    refine ⟨fun young => absurd (placed.absent young) (by simp [at_]), ?_⟩
    intro u
    have once := placed.once u
    simp only [State.places, at_, first, WorkerPc.held, List.countP_cons, Option.toList_none,
      Option.toList_some, List.countP_nil] at once ⊢
    omega
  | deliver e upTo at_ =>
    refine ⟨fun young => absurd (placed.absent young) (by simp [at_]), ?_⟩
    intro u
    have once := placed.once u
    simp only [State.places, State.putNow, at_, WorkerPc.held, List.countP_append,
      List.countP_cons, Option.toList_none, Option.toList_some, List.countP_nil] at once ⊢
    omega

def State.From (s : State) (t : Nat) (g : Given) : Prop :=
  ∃ start, s.given t = some (g, start) ∧ start ≤ s.clock

/-- What is put into the queue at `clock`, for a call that began at `start` with `orig`. Early only
    if the time was not positive, beyond the bound at a reading of the call, or if the message
    is not persistent and `stop()` had been called. -/
def Timely (orig : Given) (start : Int) (g : Given) (clock : Int) (stopped : Bool) : Prop :=
  (g = orig ∧ (orig.deliveryTime ≤ 0 ∨ orig.deliveryTime ≤ clock ∨
    orig.isPersistent = false ∧ stopped = true)) ∨
  (g = orig.reset ∧ ∃ now, start ≤ now ∧ now ≤ clock ∧
    kMaxFutureHeaderMs < orig.deliveryTime - now)

def Told (s : State) (t : Nat) : CallPc → Prop
  | .unborn | .returned => True
  | .clamp g | .due g | .lock g => s.From t g
  | .put g => ∃ orig start, s.given t = some (orig, start) ∧ start ≤ s.clock ∧
      Timely orig start g s.clock s.stopped

theorem Timely.later {orig g : Given} {start clock clock' : Int} {stopped stopped' : Bool}
    (timely : Timely orig start g clock stopped) (later : clock ≤ clock')
    (monotone : stopped = true → stopped' = true) : Timely orig start g clock' stopped' := by
  rcases timely with ⟨same, early | due | ⟨transient, ended⟩⟩ | ⟨same, now, after, before, far⟩
  · exact .inl ⟨same, .inl early⟩
  · exact .inl ⟨same, .inr (.inl (by omega))⟩
  · exact .inl ⟨same, .inr (.inr ⟨transient, monotone ended⟩)⟩
  · exact .inr ⟨same, now, after, by omega, far⟩

/-- Everything on its way to a queue is what a call was given, and the entries taken
    out of `_pending` are due. -/
structure Honest (s : State) : Prop where
  unborn : ∀ t, s.calls t = .unborn → s.given t = none
  told : ∀ t, Told s t (s.calls t)
  pending : ∀ e ∈ s.pending, e.key = e.entry.deliveryTime ∧ s.From e.call e.entry
  held : ∀ e, s.worker.held = some e → e.entry.deliveryTime ≤ s.clock ∧ s.From e.call e.entry
  reading : ∀ t, s.worker.upTo = some t → t ≤ s.clock
  puts : ∀ r ∈ s.puts, ∃ orig start, s.given r.call = some (orig, start) ∧
    Timely orig start r.entry r.clock r.stopped
  dropped : ∀ t ∈ s.dropped, s.stopped = true ∧ ∃ g, s.From t g ∧ g.isPersistent = true

theorem honest_start (clock : Int) : Honest (fresh clock) where
  unborn _ _ := rfl
  told _ := trivial
  pending _ member := by cases member
  held _ held := by cases held
  reading _ reading := by cases reading
  puts _ member := by cases member
  dropped _ member := by cases member

theorem Told.later {s s' : State} {t : Nat} {pc : CallPc} (told : Told s t pc)
    (given : s'.given t = s.given t) (clock : s.clock ≤ s'.clock)
    (monotone : s.stopped = true → s'.stopped = true) : Told s' t pc := by
  cases pc with
  | unborn => exact trivial
  | returned => exact trivial
  | clamp g | due g | lock g =>
    all_goals
      obtain ⟨start, same, before⟩ := told
      exact ⟨start, given ▸ same, by omega⟩
  | put g =>
    obtain ⟨orig, start, same, before, timely⟩ := told
    exact ⟨orig, start, given ▸ same, by omega, timely.later clock monotone⟩

theorem Honest.later {s s' : State} (honest : Honest s) (calls : s'.calls = s.calls)
    (given : s'.given = s.given) (pending : s'.pending = s.pending) (worker : s'.worker = s.worker)
    (puts : s'.puts = s.puts) (dropped : s'.dropped = s.dropped) (clock : s.clock ≤ s'.clock)
    (monotone : s.stopped = true → s'.stopped = true) : Honest s' := by
  have origin : ∀ {t g}, s.From t g → s'.From t g := by
    rintro t g ⟨start, same, before⟩
    exact ⟨start, given ▸ same, by omega⟩
  refine
    { unborn := ?unborn
      told := ?told
      pending := ?pending
      held := ?held
      reading := ?reading
      puts := ?puts
      dropped := ?dropped }
  case unborn =>
    rw [calls, given]
    exact honest.unborn
  case told =>
    intro t
    rw [calls]
    exact (honest.told t).later (by rw [given]) clock monotone
  case pending =>
    rw [pending]
    intro e member
    exact ⟨(honest.pending e member).1, origin (honest.pending e member).2⟩
  case held =>
    rw [worker]
    intro e held
    obtain ⟨due, from_⟩ := honest.held e held
    exact ⟨by omega, origin from_⟩
  case reading =>
    rw [worker]
    intro t reading
    have := honest.reading t reading
    omega
  case puts =>
    rw [puts, given]
    exact honest.puts
  case dropped =>
    rw [dropped]
    intro t member
    obtain ⟨ended, g, from_, persistent⟩ := honest.dropped t member
    exact ⟨monotone ended, g, origin from_, persistent⟩

theorem Local.told {s : State} {t : Nat} {old pc : CallPc} (step : Local s old pc)
    (told : Told s t old) : Told s t pc := by
  cases step with
  | reset g far =>
    obtain ⟨start, same, before⟩ := told
    exact ⟨g, start, same, before, .inr ⟨rfl, s.clock, before, le_rfl, far⟩⟩
  | near g near => exact told
  | now g due =>
    obtain ⟨start, same, before⟩ := told
    refine ⟨g, start, same, before, .inl ⟨rfl, ?_⟩⟩
    rcases due with zero | passed
    · exact .inl (by omega)
    · exact .inr (.inl passed)
  | later g later => exact told
  | late g stopped transient =>
    obtain ⟨start, same, before⟩ := told
    exact ⟨g, start, same, before, .inl ⟨rfl, .inr (.inr ⟨transient, stopped⟩)⟩⟩

theorem Honest.told_update {s : State} (honest : Honest s) {t : Nat} {pc : CallPc}
    (new : Told s t pc) (u : Nat) : Told s u (Function.update s.calls t pc u) := by
  by_cases same : u = t
  · subst same
    rwa [Function.update_self]
  · rw [Function.update_of_ne same]
    exact honest.told u

theorem Honest.unborn_update {s : State} (honest : Honest s) {t : Nat} {pc : CallPc}
    (born : pc ≠ .unborn) (u : Nat) (young : Function.update s.calls t pc u = .unborn) :
    s.given u = none := by
  by_cases same : u = t
  · rw [same, Function.update_self] at young
    exact absurd young born
  · rw [Function.update_of_ne same] at young
    exact honest.unborn u young

theorem Honest.called {s : State} (honest : Honest s) {t : Nat} {g : Given} {pc : CallPc}
    (at_ : s.calls t = .unborn) (entry : pc = .clamp g ∨ pc = .due g) :
    Honest { s.goto t pc with given := Function.update s.given t (some (g, s.clock)) } := by
  have none := honest.unborn t at_
  have keeps : ∀ {u x}, s.given u = some x →
      Function.update s.given t (some (g, s.clock)) u = some x := by
    intro u x there
    have other : u ≠ t := by
      intro same
      rw [same, none] at there
      cases there
    rw [Function.update_of_ne other, there]
  have origin : ∀ {u x}, s.From u x →
      State.From { s.goto t pc with given := Function.update s.given t (some (g, s.clock)) } u x := by
    rintro u x ⟨start, same, before⟩
    exact ⟨start, keeps same, before⟩
  refine
    { unborn := ?unborn
      told := ?told
      pending := ?pending
      held := ?held
      reading := honest.reading
      puts := ?puts
      dropped := ?dropped }
  case unborn =>
    intro u young
    by_cases same : u = t
    · have here : pc = .unborn := by simpa [State.goto, same] using young
      rcases entry with clamp | due
      · rw [clamp] at here
        cases here
      · rw [due] at here
        cases here
    · simp only [State.goto, Function.update_of_ne same] at young ⊢
      exact honest.unborn u young
  case told =>
    intro u
    by_cases same : u = t
    · subst same
      have new : State.From
          { s.goto u pc with given := Function.update s.given u (some (g, s.clock)) } u g :=
        ⟨s.clock, Function.update_self _ _ _, le_rfl⟩
      rcases entry with clamp | due
      · simpa [State.goto, clamp, Told] using new
      · simpa [State.goto, due, Told] using new
    · simp only [State.goto, Function.update_of_ne same]
      exact (honest.told u).later (by simp [Function.update_of_ne same]) le_rfl id
  case pending =>
    intro e member
    exact ⟨(honest.pending e member).1, origin (honest.pending e member).2⟩
  case held =>
    intro e held
    exact ⟨(honest.held e held).1, origin (honest.held e held).2⟩
  case puts =>
    intro r member
    obtain ⟨orig, start, same, timely⟩ := honest.puts r member
    exact ⟨orig, start, keeps same, timely⟩
  case dropped =>
    intro u member
    obtain ⟨ended, x, from_, persistent⟩ := honest.dropped u member
    exact ⟨ended, x, origin from_, persistent⟩

theorem Move.honest {s s' : State} {a : Act} (move : Move s a s') (placed : Placed s)
    (honest : Honest s) : Honest s' := by
  cases move with
  | stays => exact honest
  | tick ms => exact honest.later rfl rfl rfl rfl rfl rfl (by dsimp only; omega) id
  | stopping k stop stopped stops monotone =>
    exact honest.later rfl rfl rfl rfl rfl rfl le_rfl monotone
  | call t g pc at_ entry => exact honest.called at_ (entry.imp And.left And.left)
  | go t pc step =>
    have kinds := step.active
    refine ⟨honest.unborn_update ?_, honest.told_update (step.told (honest.told t)),
      honest.pending, honest.held, honest.reading, honest.puts, honest.dropped⟩
    intro unborn
    simp [unborn, CallPc.born] at kinds
  | put t g at_ =>
    refine ⟨honest.unborn_update (by simp), honest.told_update trivial, honest.pending, honest.held,
      honest.reading, ?_, honest.dropped⟩
    intro r member
    rcases List.mem_append.mp member with old | new
    · exact honest.puts r old
    · rw [List.mem_singleton.mp new]
      have told := honest.told t
      rw [at_] at told
      obtain ⟨orig, start, same, -, timely⟩ := told
      exact ⟨orig, start, same, timely⟩
  | drop t g at_ stopped persistent =>
    refine ⟨honest.unborn_update (by simp), honest.told_update trivial, honest.pending, honest.held,
      honest.reading, honest.puts, ?_⟩
    intro u member
    rcases List.mem_append.mp member with old | new
    · exact honest.dropped u old
    · rw [List.mem_singleton.mp new]
      have told := honest.told t
      rw [at_] at told
      exact ⟨stopped, g, told, persistent⟩
  | insert t g pc at_ running worker =>
    have told := honest.told t
    rw [at_] at told
    have same : pc.held = s.worker.held ∧ pc.upTo = s.worker.upTo := by
      rcases worker with same | ⟨same, young⟩
      · rw [same]
        exact ⟨rfl, rfl⟩
      · rw [same, placed.absent young]
        exact ⟨rfl, rfl⟩
    refine ⟨honest.unborn_update (by simp), honest.told_update trivial, ?_, ?_, ?_, honest.puts,
      honest.dropped⟩
    · intro e member
      rcases mem_emplace.mp member with new | old
      · rw [new]
        exact ⟨rfl, told⟩
      · exact honest.pending e old
    · intro e held
      exact honest.held e (same.1 ▸ held)
    · intro u reading
      exact honest.reading u (same.2 ▸ reading)
  | turn a pc from_ to_ reading started =>
    refine ⟨honest.unborn, honest.told, honest.pending, ?_, ?_, honest.puts, honest.dropped⟩
    · intro e held
      simp [to_] at held
    · intro u here
      dsimp only at here
      rcases reading with none | same | now
      · rw [none] at here
        cases here
      · exact honest.reading u (same ▸ here)
      · rw [now] at here
        cases here
        exact le_rfl
  | take e rest upTo at_ first due =>
    have read := honest.reading upTo (by rw [at_]; rfl)
    refine ⟨honest.unborn, honest.told, ?_, ?_, ?_, honest.puts, honest.dropped⟩
    · intro x member
      exact honest.pending x (by rw [first]; exact List.mem_cons_of_mem e member)
    · intro x held
      cases held
      obtain ⟨key, from_⟩ := honest.pending e (by simp [first])
      exact ⟨by dsimp only; omega, from_⟩
    · intro u here
      cases here
      exact read
  | deliver e upTo at_ =>
    obtain ⟨due, start, same, before⟩ := honest.held e (by rw [at_]; rfl)
    refine ⟨honest.unborn, honest.told, honest.pending, ?_, ?_, ?_, honest.dropped⟩
    · intro x held
      cases held
    · intro u here
      cases here
      exact honest.reading upTo (by rw [at_]; rfl)
    · intro r member
      rcases List.mem_append.mp member with old | new
      · exact honest.puts r old
      · rw [List.mem_singleton.mp new]
        exact ⟨e.entry, start, same, .inl ⟨rfl, .inr (.inl due)⟩⟩

def Before (a b : Entry) : Prop := a.key < b.key ∨ a.key = b.key ∧ a.stamp < b.stamp

structure Ordered (s : State) : Prop where
  sorted : s.pending.Pairwise Before
  stamps : ∀ e ∈ s.pending, e.stamp < s.version

theorem emplace_sorted {e : Entry} {pending : List Entry} (sorted : pending.Pairwise Before)
    (last : ∀ x ∈ pending, x.stamp < e.stamp) : (emplace e pending).Pairwise Before := by
  induction pending with
  | nil => simp [emplace]
  | cons b rest ih =>
    obtain ⟨first, tail⟩ := List.pairwise_cons.mp sorted
    unfold emplace
    rw [List.orderedInsert_cons]
    split
    next before =>
      refine List.pairwise_cons.mpr ⟨?_, sorted⟩
      intro x member
      rcases List.mem_cons.mp member with same | later
      · rw [same]
        exact .inl before
      · rcases first x later with less | ⟨equal, -⟩
        · exact .inl (by omega)
        · exact .inl (by omega)
    next behind =>
      have inserted := ih tail fun x member => last x (List.mem_cons_of_mem b member)
      refine List.pairwise_cons.mpr ⟨?_, inserted⟩
      intro x member
      rcases mem_emplace.mp member with new | old
      · rw [new]
        have stamp := last b (by simp)
        unfold Before
        omega
      · exact first x old

theorem Move.ordered {s s' : State} {a : Act} (move : Move s a s') (ordered : Ordered s) :
    Ordered s' := by
  cases move with
  | insert t g pc at_ running worker =>
    refine ⟨emplace_sorted ordered.sorted ordered.stamps, ?_⟩
    intro e member
    dsimp only
    rcases mem_emplace.mp member with new | old
    · rw [new]
      exact Nat.lt_succ_self s.version
    · have := ordered.stamps e old
      omega
  | take e rest upTo at_ first due =>
    have sorted := ordered.sorted
    rw [first] at sorted
    refine ⟨(List.pairwise_cons.mp sorted).2, ?_⟩
    intro x member
    exact ordered.stamps x (by rw [first]; exact List.mem_cons_of_mem e member)
  | stays | tick | call | go | put | drop | turn | deliver | stopping =>
    exact ⟨ordered.sorted, ordered.stamps⟩

/-- What a step of a drain takes out of `_pending` has the least delivery time there, and was
    inserted first among those that have it. -/
def TakesLeast (s : State) (a : Act) : Prop :=
  s.worker.held = none → ∀ e, (next s a).worker.held = some e →
    e ∈ s.pending ∧ ∀ x ∈ s.pending, e.entry.deliveryTime < x.entry.deliveryTime ∨
      e.entry.deliveryTime = x.entry.deliveryTime ∧ e.stamp ≤ x.stamp

structure Sound (s : State) : Prop where
  placed : Placed s
  honest : Honest s
  ordered : Ordered s

theorem sound_start (clock : Int) : Sound (fresh clock) :=
  ⟨placed_start clock, honest_start clock, ⟨List.Pairwise.nil, fun _ member => by cases member⟩⟩

theorem sound_next (s : State) (a : Act) (sound : Sound s) : Sound (next s a) :=
  have move := next_moves s a
  ⟨move.placed sound.placed, move.honest sound.placed sound.honest, move.ordered sound.ordered⟩

theorem Sound.takesLeast {s : State} (sound : Sound s) (a : Act) : TakesLeast s a := by
  intro empty e held
  have move := next_moves s a
  generalize next s a = s' at held move
  cases move with
  | take x rest upTo at_ first due =>
    cases held
    have sorted := sound.ordered.sorted
    rw [first] at sorted
    have keys : ∀ y ∈ s.pending, y.key = y.entry.deliveryTime :=
      fun y member => (sound.honest.pending y member).1
    have here : e ∈ s.pending := by simp [first]
    refine ⟨here, ?_⟩
    intro y member
    rw [← keys e here, ← keys y member]
    rw [first] at member
    rcases List.mem_cons.mp member with same | later
    · rw [same]
      exact .inr ⟨rfl, le_rfl⟩
    · rcases (List.pairwise_cons.mp sorted).1 y later with less | ⟨equal, stamp⟩
      · exact .inl less
      · exact .inr ⟨equal, stamp.le⟩
  | insert t g pc at_ running worker =>
    rcases worker with same | ⟨same, -⟩
    · simp [same, empty] at held
    · simp [same, WorkerPc.held] at held
  | turn a pc from_ to_ reading started => simp [to_] at held
  | deliver x upTo at_ => cases held
  | stays | tick | call | go | put | drop | stopping => simp_all [State.goto, State.putNow]

theorem Placed.put_once {s : State} (placed : Placed s) : (s.puts.map (·.call)).Nodup := by
  rw [List.nodup_iff_count_le_one]
  intro t
  have once := placed.once t
  have young : (s.calls t).born ≤ 1 := by
    cases s.calls t <;> simp [CallPc.born]
  have same : (s.puts.map (·.call)).count t = s.puts.countP (·.call = t) := by
    rw [List.count, List.countP_map]
    apply List.countP_congr
    intro r _
    simp
  unfold State.places at once
  omega

theorem Placed.whereabouts {s : State} (placed : Placed s) {t : Nat}
    (returned : s.calls t = .returned) :
    (∃ r ∈ s.puts, r.call = t) ∨ (∃ e ∈ s.pending, e.call = t) ∨
      (∃ e, s.worker.held = some e ∧ e.call = t) ∨ t ∈ s.dropped := by
  have once := placed.once t
  by_contra nowhere
  push Not at nowhere
  obtain ⟨put, pending, held, dropped⟩ := nowhere
  have noPut : s.puts.countP (·.call = t) = 0 := List.countP_eq_zero.mpr (by simpa using put)
  have noPending : s.pending.countP (·.call = t) = 0 :=
    List.countP_eq_zero.mpr (by simpa using pending)
  have noHeld : s.worker.held.toList.countP (·.call = t) = 0 := by
    apply List.countP_eq_zero.mpr
    intro e member
    simpa using held e (Option.mem_toList.mp member)
  have noDrop : s.dropped.count t = 0 := List.count_eq_zero.mpr dropped
  simp only [State.places, returned, CallPc.active, CallPc.born, noPut, noPending, noHeld,
    noDrop] at once
  omega

theorem delivery_scheduler_safe (clock : Int) (acts : List Act) :
    (∀ s ∈ states next (fresh clock) acts,
      (s.puts.map (·.call)).Nodup ∧
      (∀ r ∈ s.puts, ∃ g start, s.given r.call = some (g, start) ∧
        Timely g start r.entry r.clock r.stopped) ∧
      (∀ t, s.calls t = .returned → (∃ r ∈ s.puts, r.call = t) ∨ (∃ e ∈ s.pending, e.call = t) ∨
        (∃ e, s.worker.held = some e ∧ e.call = t) ∨ t ∈ s.dropped) ∧
      (∀ t ∈ s.dropped, s.stopped = true ∧ ∃ g start, s.given t = some (g, start) ∧
        g.isPersistent = true)) ∧
    Meets next TakesLeast (fresh clock) acts := by
  constructor
  · intro s reached
    have sound := invariant_reached sound_next (sound_start clock) acts s reached
    refine ⟨sound.placed.put_once, sound.honest.puts, fun t => sound.placed.whereabouts, ?_⟩
    intro t member
    obtain ⟨ended, g, ⟨start, same, -⟩, persistent⟩ := sound.honest.dropped t member
    exact ⟨ended, g, start, same, persistent⟩
  · exact meets_along (fun s a (sound : Sound s) (_ : True) => sound_next s a sound)
      (fun s a sound _ => sound.takesLeast a) (sound_start clock) (meets_always (fresh clock) acts)

def delayed : Given :=
  { queue := 0, msg := some { oid := 0, content := { headers := { deliveryTime := 5 }, body := .text [] } } }

def drained : List Act :=
  [.call 0 delayed, .caller 0, .caller 0, .caller 0, .work, .work, .work, .work, .tick 5, .timeout,
    .work, .work]

theorem drained_message_in_neither :
    ∃ s ∈ states next (fresh 0) drained, s.calls 0 = .returned ∧ (∀ r ∈ s.puts, r.call ≠ 0) ∧
      (∀ e ∈ s.pending, e.call ≠ 0) ∧ 0 ∉ s.dropped ∧ s.stopped = false := by
  decide

theorem delayed_message_put_once :
    ∃ s ∈ states next (fresh 0) (drained ++ [.work]), s.puts.length = 1 ∧
      (s.puts.map (·.call)).Nodup := by
  refine ⟨_, last_state_mem _ _ _, by decide, ?_⟩
  exact ((delivery_scheduler_safe 0 _).1 _ (last_state_mem _ _ _)).1

end TinyMqDeliveryScheduler
