import TinyMq.Lib.ByteStrings
import TinyMq.Lib.Doubles
import TinyMq.Broker.DeliveryScheduler
import TinyMq.Broker.Destination

/-!
When a redelivery with backoff reaches its queue. `redeliver` computes the delay in
doubles and adds it to a clock reading; the scheduler then judges the sum against
readings of its own, and takes what lies beyond ten years for garbage.
-/
namespace TinyMqRedeliveryBackoff
open ByteStrings Doubles Machines TinyMqMessage TinyMqDestination TinyMqDeliveryScheduler

/-- `Poco::Timestamp().epochMicroseconds() / 1000`. -/
def clockMs (epochMicroseconds : Int) : Int := epochMicroseconds.tdiv 1000

/-- The delay of `redeliver`. The product of a double with a power of two is exact; one that is
    infinite is above every `int64_t`, as the exact one is. -/
def delayMs (policy : RedeliveryPolicy) (deliveryCount : Int) : Int :=
  let rawDelayMs := nearestInt policy.backoffMs * 2 ^ (deliveryCount - 1).toNat
  if rawDelayMs < nearestInt policy.maxBackoffMs then rawDelayMs else policy.maxBackoffMs

def bound (policy : RedeliveryPolicy) (deliveryCount : Int) : Int :=
  min (policy.backoffMs * 2 ^ (deliveryCount - 1).toNat) policy.maxBackoffMs

/-- Whatever the threads of the scheduler do, a message that `redeliver` stamped at `now` comes
    into its queue no earlier than promised. `stop()` runs when the destination is destroyed,
    which leaves no live session; what it puts out without a record is not counted. -/
def NotEarly (policy : RedeliveryPolicy) (deliveryCount now : Int) : Prop :=
  ∀ (clock : Int) (acts : List Act), ∀ s ∈ states next (fresh clock) acts,
    ∀ r ∈ s.puts, ∀ (queue : Nat) (m : Message) (start : Int),
      s.given r.call = some (⟨queue, some m⟩, start) → now ≤ start →
      m.content.headers.deliveryTime = now + delayMs policy deliveryCount →
      (r.stopped = false ∨ m.isPersistent = true) →
      now + bound policy deliveryCount ≤ r.clock

/-- The delay and the delivery time are computed without overflow, and the promise is kept. -/
def OnTime (policy : RedeliveryPolicy) (deliveryCount now : Int) : Prop :=
  Fits 8 (delayMs policy deliveryCount) ∧ Fits 8 (now + delayMs policy deliveryCount) ∧
    NotEarly policy deliveryCount now

/-- Why a message that a call was given at `start` may come into its queue at `clock`. -/
def Ready (g : Given) (start clock : Int) (stopped : Bool) : Prop :=
  start ≤ clock ∧
    (g.deliveryTime = 0 ∨ g.deliveryTime ≤ clock ∨
      (0 < g.deliveryTime ∧ ∃ now, start ≤ now ∧ kMaxFutureHeaderMs < g.deliveryTime - now) ∨
      g.isPersistent = false ∧ stopped = true)

def ReadyIn (given : Nat → Option (Given × Int)) (t : Nat) (clock : Int) (stopped : Bool) : Prop :=
  ∃ g start, given t = some (g, start) ∧ Ready g start clock stopped

structure Prompt (s : State) : Prop where
  clamps : ∀ t g, s.calls t = .clamp g → 0 < g.deliveryTime
  waits : ∀ t g, s.calls t = .put g → ReadyIn s.given t s.clock s.stopped
  puts : ∀ r ∈ s.puts, ReadyIn s.given r.call r.clock r.stopped

theorem prompt_start (clock : Int) : Prompt (fresh clock) where
  clamps _ _ here := by cases here
  waits _ _ here := by cases here
  puts _ member := by cases member

theorem ReadyIn.later {given : Nat → Option (Given × Int)} {t : Nat} {clock clock' : Int}
    {stopped stopped' : Bool} (ready : ReadyIn given t clock stopped) (later : clock ≤ clock')
    (monotone : stopped = true → stopped' = true) : ReadyIn given t clock' stopped' := by
  obtain ⟨g, start, same, before, reason⟩ := ready
  refine ⟨g, start, same, by omega, ?_⟩
  rcases reason with zero | due | far | ⟨transient, ended⟩
  · exact .inl zero
  · exact .inr (.inl (by omega))
  · exact .inr (.inr (.inl far))
  · exact .inr (.inr (.inr ⟨transient, monotone ended⟩))

theorem Prompt.moved {s : State} (prompt : Prompt s) (t : Nat) (pc : CallPc)
    (clamps : ∀ g, pc = .clamp g → 0 < g.deliveryTime)
    (waits : ∀ g, pc = .put g → ReadyIn s.given t s.clock s.stopped) :
    (∀ u g, (s.goto t pc).calls u = .clamp g → 0 < g.deliveryTime) ∧
      ∀ u g, (s.goto t pc).calls u = .put g → ReadyIn s.given u s.clock s.stopped := by
  constructor
  · intro u g here
    by_cases same : u = t
    · exact clamps g (by simpa [State.goto, same] using here)
    · exact prompt.clamps u g (by simpa [State.goto, Function.update_of_ne same] using here)
  · intro u g here
    by_cases same : u = t
    · rw [same]
      exact waits g (by simpa [State.goto, same] using here)
    · exact prompt.waits u g (by simpa [State.goto, Function.update_of_ne same] using here)

theorem Prompt.returned {s : State} (prompt : Prompt s) (t : Nat) :
    (∀ u g, (s.goto t .returned).calls u = .clamp g → 0 < g.deliveryTime) ∧
      ∀ u g, (s.goto t .returned).calls u = .put g → ReadyIn s.given u s.clock s.stopped := by
  apply prompt.moved
  · intro g here
    cases here
  · intro g here
    cases here

theorem Local.prompt {s : State} {t : Nat} {pc : CallPc} (step : Local s (s.calls t) pc)
    (honest : Honest s) (prompt : Prompt s) : Prompt (s.goto t pc) := by
  have told := honest.told t
  have clamps := prompt.clamps t
  have ready : ∀ g, pc = .put g → ReadyIn s.given t s.clock s.stopped := by
    intro g here
    generalize s.calls t = old at step told clamps
    cases step with
    | reset x far =>
      obtain ⟨start, same, before⟩ := told
      exact ⟨x, start, same, before, .inr (.inr (.inl ⟨clamps x rfl, s.clock, before, far⟩))⟩
    | now x due =>
      obtain ⟨start, same, before⟩ := told
      exact ⟨x, start, same, before, due.imp id .inl⟩
    | late x stopped transient =>
      obtain ⟨start, same, before⟩ := told
      exact ⟨x, start, same, before, .inr (.inr (.inr ⟨transient, stopped⟩))⟩
    | near | later => cases here
  have moved := prompt.moved t pc ?_ ready
  · exact ⟨moved.1, moved.2, prompt.puts⟩
  · intro g here
    generalize s.calls t = old at step
    cases step <;> cases here

theorem Move.prompt {s s' : State} {a : Act} (move : Move s a s') (honest : Honest s)
    (prompt : Prompt s) : Prompt s' := by
  cases move with
  | stays => exact prompt
  | tick ms =>
    refine ⟨prompt.clamps, ?_, prompt.puts⟩
    intro t g here
    exact (prompt.waits t g here).later (by dsimp only; omega) id
  | stopping k stop stopped stops monotone =>
    refine ⟨prompt.clamps, ?_, prompt.puts⟩
    intro t g here
    exact (prompt.waits t g here).later le_rfl monotone
  | call t g pc at_ entry =>
    have unborn := honest.unborn t at_
    have keeps : ∀ {u clock stopped}, ReadyIn s.given u clock stopped →
        ReadyIn (Function.update s.given t (some (g, s.clock))) u clock stopped := by
      rintro u clock stopped ⟨x, start, same, ready⟩
      have other : u ≠ t := by
        rintro rfl
        rw [unborn] at same
        cases same
      exact ⟨x, start, by rw [Function.update_of_ne other, same], ready⟩
    have moved := prompt.moved t pc ?_ ?_
    · exact ⟨moved.1, fun u x here => keeps (moved.2 u x here),
        fun r member => keeps (prompt.puts r member)⟩
    · intro x here
      rcases entry with ⟨clamp, positive⟩ | ⟨due, -⟩
      · rw [clamp] at here
        cases here
        exact positive
      · rw [due] at here
        cases here
    · intro x here
      rcases entry with ⟨clamp, -⟩ | ⟨due, -⟩
      · rw [clamp] at here
        cases here
      · rw [due] at here
        cases here
  | go t pc step => exact Local.prompt step honest prompt
  | put t g at_ =>
    have moved := prompt.returned t
    refine ⟨moved.1, moved.2, ?_⟩
    intro r member
    rcases List.mem_append.mp member with old | new
    · exact prompt.puts r old
    · rw [List.mem_singleton.mp new]
      exact prompt.waits t g at_
  | drop t | insert t =>
    all_goals
      have moved := prompt.returned t
      exact ⟨moved.1, moved.2, prompt.puts⟩
  | turn | take => exact ⟨prompt.clamps, prompt.waits, prompt.puts⟩
  | deliver e upTo at_ =>
    refine ⟨prompt.clamps, prompt.waits, ?_⟩
    intro r member
    rcases List.mem_append.mp member with old | new
    · exact prompt.puts r old
    · rw [List.mem_singleton.mp new]
      obtain ⟨due, start, same, before⟩ := honest.held e (by rw [at_]; rfl)
      exact ⟨e.entry, start, same, before, .inr (.inl due)⟩

theorem prompt_reached (clock : Int) (acts : List Act) :
    ∀ s ∈ states next (fresh clock) acts, Prompt s := by
  intro s reached
  have kept : ∀ s a, Sound s ∧ Prompt s → Sound (next s a) ∧ Prompt (next s a) := by
    intro s a both
    exact ⟨sound_next s a both.1, Move.prompt (next_moves s a) both.1.honest both.2⟩
  exact (invariant_reached kept ⟨sound_start clock, prompt_start clock⟩ acts s reached).2

def timed (t : Int) : Message :=
  { oid := 0, content := { headers := { deliveryTime := t }, body := .text [] } }

theorem due_put {t clock : Int} (due : t = 0 ∨ t ≤ clock) :
    ∃ acts, ∃ s ∈ states next (fresh clock) acts,
      s.given 0 = some (⟨0, some (timed t)⟩, clock) ∧
        ⟨0, ⟨0, some (timed t)⟩, clock, false⟩ ∈ s.puts := by
  by_cases positive : 0 < t
  · have near : ¬ kMaxFutureHeaderMs < t - clock := by
      unfold kMaxFutureHeaderMs
      omega
    refine ⟨[.call 0 ⟨0, some (timed t)⟩, .caller 0, .caller 0, .caller 0], _,
      last_state_mem _ _ _, ?_⟩
    simp [next, callStep, callerStep, fresh, State.goto, State.putNow, Given.deliveryTime, timed,
      positive, near, due]
  · refine ⟨[.call 0 ⟨0, some (timed t)⟩, .caller 0, .caller 0], _, last_state_mem _ _ _, ?_⟩
    simp [next, callStep, callerStep, fresh, State.goto, State.putNow, Given.deliveryTime, timed,
      positive, due]

theorem far_put {t clock : Int} (positive : 0 < t) (far : kMaxFutureHeaderMs < t - clock) :
    ∃ acts, ∃ s ∈ states next (fresh clock) acts,
      s.given 0 = some (⟨0, some (timed t)⟩, clock) ∧
        ⟨0, Given.reset ⟨0, some (timed t)⟩, clock, false⟩ ∈ s.puts := by
  refine ⟨[.call 0 ⟨0, some (timed t)⟩, .caller 0, .caller 0], _, last_state_mem _ _ _, ?_⟩
  simp [next, callStep, callerStep, fresh, State.goto, State.putNow, Given.deliveryTime, timed,
    positive, far]

section Delay
variable {policy : RedeliveryPolicy} {n : Int}

theorem notEarly_iff {now : Int} (long : kMaxFutureHeaderMs < delayMs policy n → 0 < bound policy n) :
    NotEarly policy n now ↔
      (0 < now + delayMs policy n → delayMs policy n ≤ kMaxFutureHeaderMs) ∧
      (now + delayMs policy n = 0 → bound policy n ≤ 0) ∧
      bound policy n ≤ max 0 (delayMs policy n) := by
  constructor
  · intro kept
    have early : ∀ clock, now ≤ clock →
        (now + delayMs policy n = 0 ∨ now + delayMs policy n ≤ clock) →
        now + bound policy n ≤ clock := by
      intro clock later due
      obtain ⟨acts, s, reached, given, member⟩ := due_put due
      exact kept clock acts s reached _ member 0 _ clock given later rfl (.inl rfl)
    refine ⟨?_, ?_, ?_⟩
    · intro positive
      by_contra long_
      have far : kMaxFutureHeaderMs < now + delayMs policy n - now := by omega
      obtain ⟨acts, s, reached, given, member⟩ := far_put positive far
      have soon := kept now acts s reached _ member 0 _ now given le_rfl rfl (.inl rfl)
      have := long (by omega)
      dsimp only at soon
      omega
    · intro zero
      have := early now le_rfl (.inl zero)
      omega
    · have := early (max now (now + delayMs policy n)) (by omega) (.inr (by omega))
      omega
  · rintro ⟨near, zero, enough⟩ clock acts s reached r member queue m start given later stamped live
    obtain ⟨g, start', same, before, reason⟩ := (prompt_reached clock acts s reached).puts r member
    rw [given] at same
    cases same
    have stamp : (⟨queue, some m⟩ : Given).deliveryTime = now + delayMs policy n := stamped
    rw [stamp] at reason
    rcases reason with none | due | ⟨positive, reading, after, far⟩ | ⟨transient, ended⟩
    · have := zero none
      omega
    · omega
    · have := near positive
      omega
    · rcases live with running | persistent
      · simp [ended] at running
      · simp [Given.isPersistent, persistent] at transient

theorem factor_pos (n : Int) : (1 : Int) ≤ 2 ^ (n - 1).toNat := Int.pow_pos (by decide)

theorem le_mul_factor {x f : Int} (nonneg : 0 ≤ x) (factor : 1 ≤ f) : x ≤ x * f := by
  have := Int.mul_le_mul_of_nonneg_left factor nonneg
  omega

theorem delayMs_fits (cap : Fits 8 policy.maxBackoffMs) (backoff : 0 < policy.backoffMs) :
    Fits 8 (delayMs policy n) := by
  obtain ⟨below, above⟩ := cap
  have top : nearestInt policy.maxBackoffMs ≤ 2 ^ 63 := nearestInt_le_pow above
  have positive : 2 ^ 0 ≤ nearestInt policy.backoffMs := pow_le_nearestInt (by omega)
  have raw := le_mul_factor (Int.le_trans (by decide) positive) (factor_pos n)
  unfold delayMs Fits
  dsimp only
  split <;> omega

theorem delayMs_eq_bound (backoff : 0 < policy.backoffMs) (exact_ : bound policy n < 2 ^ 53) :
    delayMs policy n = bound policy n := by
  have factor := factor_pos n
  unfold delayMs bound at *
  generalize (2 : Int) ^ (n - 1).toNat = f at *
  dsimp only
  by_cases small : policy.backoffMs < 2 ^ 53
  · rw [nearestInt_small (by omega) small]
    have raw := le_mul_factor backoff.le factor
    rcases lt_or_ge (-2 ^ 53) policy.maxBackoffMs with low | low
    · rcases lt_or_ge policy.maxBackoffMs (2 ^ 53) with high | high
      · rw [nearestInt_small low high]
        split <;> omega
      · have := pow_le_nearestInt high
        rw [if_pos (by omega)]
        omega
    · have : nearestInt policy.maxBackoffMs ≤ 2 ^ 0 := nearestInt_le_pow (by omega)
      rw [if_neg (by omega)]
      omega
  · have large := pow_le_nearestInt (Int.not_lt.mp small)
    have raw := le_mul_factor backoff.le factor
    have rounded := le_mul_factor (by omega : 0 ≤ nearestInt policy.backoffMs) factor
    have high : nearestInt policy.maxBackoffMs ≤ 2 ^ 53 := nearestInt_le_pow (by omega)
    rw [if_neg (by omega)]
    omega

theorem delayMs_large (backoff : 0 < policy.backoffMs) (large : 2 ^ 53 ≤ bound policy n) :
    2 ^ 53 ≤ delayMs policy n := by
  have factor := factor_pos n
  unfold delayMs bound at *
  generalize (2 : Int) ^ (n - 1).toNat = f at *
  dsimp only
  by_cases small : policy.backoffMs < 2 ^ 53
  · rw [nearestInt_small (by omega) small]
    split <;> omega
  · have rounded := pow_le_nearestInt (Int.not_lt.mp small)
    have raw := le_mul_factor (by omega : 0 ≤ nearestInt policy.backoffMs) factor
    split <;> omega

theorem onTime_iff {micros : Int} (cap : Fits 8 policy.maxBackoffMs)
    (backoff : 0 < policy.backoffMs) :
    OnTime policy n (clockMs micros) ↔
      Fits 8 (clockMs micros + delayMs policy n) ∧
      (0 < clockMs micros + delayMs policy n → delayMs policy n ≤ kMaxFutureHeaderMs) ∧
      (clockMs micros + delayMs policy n = 0 → bound policy n ≤ 0) ∧
      bound policy n ≤ max 0 (delayMs policy n) := by
  have long : kMaxFutureHeaderMs < delayMs policy n → 0 < bound policy n := by
    intro far
    rcases lt_or_ge (bound policy n) (2 ^ 53) with small | large
    · rw [delayMs_eq_bound backoff small] at far
      exact Int.lt_trans (by decide) far
    · omega
  rw [OnTime, notEarly_iff long, and_iff_right (delayMs_fits cap backoff)]

end Delay

/-- The promise can be kept: the delay is at most ten years if it ends after the clock's zero,
    and none if it ends there. -/
def Honoured (policy : RedeliveryPolicy) (n now : Int) : Prop :=
  (0 < now + bound policy n → bound policy n ≤ kMaxFutureHeaderMs) ∧
    (now + bound policy n = 0 → bound policy n ≤ 0) ∧ -2 ^ 63 ≤ now + bound policy n

theorem clockMs_range {micros : Int} (clock : Fits 8 micros) :
    -9223372036854775 ≤ clockMs micros ∧ clockMs micros ≤ 9223372036854775 := by
  obtain ⟨below, above⟩ := clock
  unfold clockMs
  rcases Int.le_total 0 micros with positive | negative
  · rw [Int.tdiv_eq_ediv_of_nonneg positive]
    omega
  · have flipped : 0 ≤ -micros := by omega
    have turned := Int.neg_tdiv (-micros) 1000
    rw [Int.neg_neg, Int.tdiv_eq_ediv_of_nonneg flipped] at turned
    omega

theorem far_alike {env : Env} {d : Destination} {q : QueueId} {m : Message} {t u : Int}
    (t_far : 0 < t ∧ kMaxFutureHeaderMs < t - env.nowMs)
    (u_far : 0 < u ∧ kMaxFutureHeaderMs < u - env.nowMs) :
    d.enqueueOrSchedule env q (m.setDeliveryTime t).refreshCachedStorageBytes =
      d.enqueueOrSchedule env q (m.setDeliveryTime u).refreshCachedStorageBytes := by
  have clamped : ∀ v, 0 < v ∧ kMaxFutureHeaderMs < v - env.nowMs →
      clampFuture env (m.setDeliveryTime v).refreshCachedStorageBytes =
        ((m.setDeliveryTime 0).refreshCachedStorageBytes).patchCachedDeliveryTime 0 := by
    intro v far
    have stamp : (m.setDeliveryTime v).refreshCachedStorageBytes.content.headers.deliveryTime = v := by
      unfold Message.refreshCachedStorageBytes
      split <;> rfl
    unfold clampFuture
    rw [stamp, if_pos far]
    unfold Message.refreshCachedStorageBytes
    cases persistent : m.isPersistent <;>
      simp [Message.isPersistent, Message.setDeliveryTime, Message.patchCachedDeliveryTime,
        Content.withDeliveryTime] at persistent ⊢ <;> simp [persistent]
  unfold Destination.enqueueOrSchedule
  rw [clamped t t_far, clamped u u_far]

theorem redeliver_stamps {env : Env} {c : Consumer} {d : Destination} {m : Message}
    (within : ¬ (0 ≤ d.redeliveryPolicy.maxRedeliveries ∧
      d.redeliveryPolicy.maxRedeliveries < m.content.headers.deliveryCount + 1))
    (backoff : 0 < d.redeliveryPolicy.backoffMs)
    (clock : 0 ≤ env.nowMs ∨
      bound d.redeliveryPolicy (m.content.headers.deliveryCount + 1) < 2 ^ 53) :
    d.redeliver env c false m =
      (d.enqueueOrSchedule env c.queue ((countRedelivery m).setDeliveryTime
        (env.nowMs + delayMs d.redeliveryPolicy
          (m.content.headers.deliveryCount + 1))).refreshCachedStorageBytes, none) := by
  have exact_ : backoffDelay d.redeliveryPolicy (m.content.headers.deliveryCount + 1) =
      bound d.redeliveryPolicy (m.content.headers.deliveryCount + 1) := by
    unfold backoffDelay bound
    dsimp only
    split <;> omega
  have count : (countRedelivery m).content.headers.deliveryCount =
      m.content.headers.deliveryCount + 1 := rfl
  unfold Destination.redeliver
  simp only [count, if_neg within, backoff, exact_, Bool.not_false, Bool.true_and, decide_true,
    if_true]
  rcases lt_or_ge (bound d.redeliveryPolicy (m.content.headers.deliveryCount + 1)) (2 ^ 53)
    with small | large
  · rw [delayMs_eq_bound backoff small]
  · have rounded := delayMs_large backoff large
    rw [far_alike (t := env.nowMs + bound d.redeliveryPolicy (m.content.headers.deliveryCount + 1))]
    · unfold kMaxFutureHeaderMs
      omega
    · unfold kMaxFutureHeaderMs
      omega

theorem backoff_on_time {policy : RedeliveryPolicy} {n micros : Int}
    (cap : Fits 8 policy.maxBackoffMs) (backoff : 0 < policy.backoffMs) (clock : Fits 8 micros) :
    Fits 8 (delayMs policy n) ∧
    (0 ≤ clockMs micros →
      (OnTime policy n (clockMs micros) ↔ bound policy n ≤ kMaxFutureHeaderMs)) ∧
    (-2 ^ 53 ≤ clockMs micros ∨ bound policy n < 2 ^ 53 →
      (OnTime policy n (clockMs micros) ↔ Honoured policy n (clockMs micros))) ∧
    (clockMs micros < -2 ^ 53 → 2 ^ 53 ≤ bound policy n →
      (OnTime policy n (clockMs micros) ↔
        bound policy n ≤ delayMs policy n ∧ clockMs micros + delayMs policy n < 0)) ∧
    ∀ (env : Env) (c : Consumer) (d : Destination) (m : Message), d.redeliveryPolicy = policy →
      env.nowMs = clockMs micros → m.content.headers.deliveryCount + 1 = n →
      ¬ (0 ≤ policy.maxRedeliveries ∧ policy.maxRedeliveries < n) →
      (0 ≤ clockMs micros ∨ bound policy n < 2 ^ 53) →
      d.redeliver env c false m =
        (d.enqueueOrSchedule env c.queue ((countRedelivery m).setDeliveryTime
          (clockMs micros + delayMs policy n)).refreshCachedStorageBytes, none) := by
  obtain ⟨first, last⟩ := clockMs_range clock
  have fits := delayMs_fits (n := n) cap backoff
  have honoured : -2 ^ 53 ≤ clockMs micros ∨ bound policy n < 2 ^ 53 →
      (OnTime policy n (clockMs micros) ↔ Honoured policy n (clockMs micros)) := by
    intro common
    rw [onTime_iff cap backoff]
    unfold Honoured Fits kMaxFutureHeaderMs
    rcases lt_or_ge (bound policy n) (2 ^ 53) with small | large
    · rw [delayMs_eq_bound backoff small]
      omega
    · have rounded := delayMs_large backoff large
      omega
  have low : -2 ^ 63 ≤ bound policy n := by
    have raw := le_mul_factor backoff.le (factor_pos n)
    have := cap.1
    unfold bound
    omega
  refine ⟨fits, ?_, honoured, ?_, ?_⟩
  · intro late
    rw [honoured (.inl (by omega))]
    unfold Honoured kMaxFutureHeaderMs
    omega
  · intro early large
    have rounded := delayMs_large backoff large
    rw [onTime_iff cap backoff]
    unfold Fits at *
    unfold kMaxFutureHeaderMs
    omega
  · rintro env c d m rfl reading rfl within exact_
    rw [← reading] at exact_ ⊢
    exact redeliver_stamps within backoff exact_

/-- A delay of 200 ms, asked for in November 2023. -/
theorem ordinary_on_time : OnTime { backoffMs := 200 } 1 1700000000000 := by
  have policy : Fits 8 60000 := ⟨by decide, by decide⟩
  have clock : Fits 8 1700000000000000 := ⟨by decide, by decide⟩
  exact ((@backoff_on_time { backoffMs := 200 } 1 _ policy (by decide) clock).2.1
    (by decide)).mpr (by decide)

/-- One second, doubled 29 times, is 17 years; the message is delivered at once. -/
theorem doubled_too_often :
    bound { backoffMs := 1000, maxBackoffMs := 2 ^ 62 } 30 = 536870912000 ∧
    ¬ NotEarly { backoffMs := 1000, maxBackoffMs := 2 ^ 62 } 30 1700000000000 := by
  have delay : bound { backoffMs := 1000, maxBackoffMs := 2 ^ 62 } 30 = 536870912000 := by decide
  have computed := @delayMs_eq_bound { backoffMs := 1000, maxBackoffMs := 2 ^ 62 } 30 (by decide)
    (by rw [delay]; decide)
  refine ⟨delay, ?_⟩
  intro kept
  have near := ((notEarly_iff fun _ => by rw [delay]; decide).mp kept).1
  rw [computed, delay] at near
  exact absurd (near (by decide)) (by decide)

end TinyMqRedeliveryBackoff
