import Mathlib.Data.List.ReduceOption
import TinyMq.Broker.PriorityQueue

/-!
`LightweightSemaphore`, the token counter of `PriorityQueueT`, under any number
of threads. Every access to `m_count` or to the kernel's semaphore is a step of
its own; `fails` is the choice of the environment: a spurious failure of the weak
exchange, or a wait in the kernel that ends without a post. The counts are
unbounded, and no release is larger than the number of threads. `waitMany` and
`tryWaitMany`, which nothing here calls, are left out.
-/
namespace TinyMqSemaphore
open Machines TinyMqPriorityQueue

/-- Where a thread stands. `tryWait` knows the timeout of the `wait` it is the
    first half of, and none when it is the whole call. -/
inductive Pc where
  | idle
  | tryLoad (whole : Option Int)
  | tryCas (old : Int) (whole : Option Int)
  | spinLoad (left : Nat) (timeout : Int)
  | spinCas (left : Nat) (old : Int) (timeout : Int)
  | fetchSub (timeout : Int)
  | semaWait
  | adjustLoad
  | adjustTryWait
  | adjustCas (old : Int)
  | fetchAdd (count : Nat)
  | post (left : Nat)
  deriving DecidableEq

/-- What a turn of a thread leaves of the shared counts, and what it returns. -/
structure Turn where
  count : Int
  posts : Nat
  pc : Pc
  returned : Option Bool := none
  deriving DecidableEq

def spin (timeout : Int) : Nat → Pc
  | 0 => .fetchSub timeout
  | left + 1 => .spinLoad left timeout

/-- `tryWait` returns false: to its caller, or to the `wait` that spins next. -/
def giveUp (maxSpins : Nat) (count : Int) (posts : Nat) : Option Int → Turn
  | none => ⟨count,posts,.idle,some false⟩
  | some timeout => ⟨count,posts,spin timeout maxSpins,none⟩

def turn (maxSpins : Nat) (count : Int) (posts : Nat) (fails : Bool) : Pc → Turn
  | .idle => ⟨count,posts,.idle,none⟩
  | .tryLoad whole =>
    if 0 < count then ⟨count,posts,.tryCas count whole,none⟩
    else giveUp maxSpins count posts whole
  | .tryCas old whole =>
    if count = old ∧ fails = false then ⟨old - 1,posts,.idle,some true⟩
    -- a failed exchange loads the count it found
    else if 0 < count then ⟨count,posts,.tryCas count whole,none⟩
    else giveUp maxSpins count posts whole
  | .spinLoad left timeout =>
    if 0 < count then ⟨count,posts,.spinCas left count timeout,none⟩
    else ⟨count,posts,spin timeout left,none⟩
  | .spinCas left old timeout =>
    if count = old then ⟨old - 1,posts,.idle,some true⟩
    else ⟨count,posts,spin timeout left,none⟩
  | .fetchSub timeout =>
    if 0 < count then ⟨count - 1,posts,.idle,some true⟩
    else if timeout = 0 then ⟨count - 1,posts,.adjustLoad,none⟩
    else ⟨count - 1,posts,.semaWait,none⟩
  | .semaWait =>
    if fails then ⟨count,posts,.adjustLoad,none⟩
    else if 0 < posts then ⟨count,posts - 1,.idle,some true⟩
    else ⟨count,posts,.semaWait,none⟩
  | .adjustLoad =>
    if 0 ≤ count then ⟨count,posts,.adjustTryWait,none⟩
    else ⟨count,posts,.adjustCas count,none⟩
  | .adjustTryWait =>
    if 0 < posts then ⟨count,posts - 1,.idle,some true⟩
    else ⟨count,posts,.adjustLoad,none⟩
  | .adjustCas old =>
    if count = old then ⟨old + 1,posts,.idle,some false⟩
    else ⟨count,posts,.adjustLoad,none⟩
  | .fetchAdd added =>
    let toRelease := if -count < added then (-count).toNat else added
    ⟨count + added,posts,if 0 < toRelease then .post toRelease else .idle,none⟩
  | .post left => ⟨count,posts + 1,if left ≤ 1 then .idle else .post (left - 1),none⟩

structure State (n : Nat) where
  count : Int
  posts : Nat := 0
  pcs : Fin n → Pc := fun _ => .idle

inductive Act (n : Nat) where
  | wait (p : Fin n) (timeout : Int)
  | tryWait (p : Fin n)
  | signal (p : Fin n) (count : Nat)
  | turn (p : Fin n) (fails : Bool)

inductive Event (n : Nat) where
  | returned (p : Fin n) (ok : Bool)
  | added (p : Fin n) (count : Nat)
  deriving DecidableEq

variable {n : Nat}

def State.call (s : State n) (p : Fin n) (pc : Pc) : State n × Option (Event n) :=
  if s.pcs p = .idle then ({ s with pcs := Function.update s.pcs p pc }, none) else (s, none)

def event (p : Fin n) (pc : Pc) (r : Turn) : Option (Event n) :=
  match pc, r.returned with
  | .fetchAdd count, _ => some (.added p count)
  | _, some ok => some (.returned p ok)
  | _, none => none

def step (maxSpins : Nat) (s : State n) : Act n → State n × Option (Event n)
  | .wait p timeout => s.call p (.tryLoad (some timeout))
  | .tryWait p => s.call p (.tryLoad none)
  | .signal p count => s.call p (.fetchAdd count)
  | .turn p fails =>
    let r := turn maxSpins s.count s.posts fails (s.pcs p)
    (⟨r.count,r.posts,Function.update s.pcs p r.pc⟩, event p (s.pcs p) r)

/-- The counter the callers may think of: nothing is taken where there is none. -/
def replay : Nat → List (Event n) → Option Nat
  | tokens, [] => some tokens
  | tokens, .added _ count :: rest => replay (tokens + count) rest
  | tokens, .returned _ false :: rest => replay tokens rest
  | 0, .returned _ true :: _ => none
  | tokens + 1, .returned _ true :: rest => replay tokens rest

def Pc.waiting : Pc → Nat
  | .semaWait => 1
  | .adjustLoad => 1
  | .adjustTryWait => 1
  | .adjustCas _ => 1
  | _ => 0

def Pc.owed : Pc → Nat
  | .post left => left
  | _ => 0

/-- What the branches a thread came through leave true of its place. -/
def Pc.Sane : Pc → Prop
  | .tryCas old _ => 0 < old
  | .spinCas _ old _ => 0 < old
  | .adjustCas old => old < 0
  | .post left => 0 < left
  | _ => True

@[simp] theorem waiting_idle : Pc.idle.waiting = 0 := rfl

@[simp] theorem owed_idle : Pc.idle.owed = 0 := rfl

@[simp] theorem waiting_fetchSub (timeout : Int) : (Pc.fetchSub timeout).waiting = 0 := rfl

@[simp] theorem owed_fetchSub (timeout : Int) : (Pc.fetchSub timeout).owed = 0 := rfl

@[simp] theorem waiting_fetchAdd (count : Nat) : (Pc.fetchAdd count).waiting = 0 := rfl

@[simp] theorem owed_fetchAdd (count : Nat) : (Pc.fetchAdd count).owed = 0 := rfl

@[simp] theorem waiting_post (left : Nat) : (Pc.post left).waiting = 0 := rfl

@[simp] theorem owed_post (left : Nat) : (Pc.post left).owed = left := rfl

@[simp] theorem spin_waiting (timeout : Int) (left : Nat) : (spin timeout left).waiting = 0 := by
  cases left <;> rfl

@[simp] theorem spin_owed (timeout : Int) (left : Nat) : (spin timeout left).owed = 0 := by
  cases left <;> rfl

theorem spin_sane (timeout : Int) (left : Nat) : (spin timeout left).Sane := by
  cases left <;> exact trivial

def taken (r : Turn) : Nat := if r.returned = some true then 1 else 0

def Pc.adds : Pc → Nat
  | .fetchAdd count => count
  | _ => 0

/-- The accounts a turn of one thread keeps: of the tokens, and of the posts that
    are there for the waiting. -/
structure Accounts (count : Int) (posts : Nat) (pc : Pc) (r : Turn) : Prop where
  balance : r.count + r.pc.waiting + taken r = count + pc.waiting + pc.adds
  covered : r.pc.waiting + posts + pc.owed + max 0 (-count) =
    pc.waiting + r.posts + r.pc.owed + max 0 (-r.count)
  sane : r.pc.Sane
  found : r.returned = some true → 0 < max 0 count + posts

theorem giveUp_accounts (maxSpins : Nat) (count : Int) (posts : Nat) (whole : Option Int)
    (pc : Pc) (plain : pc.waiting = 0 ∧ pc.owed = 0 ∧ pc.adds = 0) :
    Accounts count posts pc (giveUp maxSpins count posts whole) := by
  obtain ⟨notWaiting, notOwed, addsNone⟩ := plain
  cases whole with
  | none =>
    constructor
    case balance => simp [giveUp, taken, notWaiting, addsNone]
    case covered => simp [giveUp, notWaiting, notOwed]
    case sane => exact trivial
    case found => simp [giveUp]
  | some timeout =>
    constructor
    case balance => simp [giveUp, taken, notWaiting, addsNone]
    case covered => simp [giveUp, notWaiting, notOwed]
    case sane => exact spin_sane timeout maxSpins
    case found => simp [giveUp]

theorem quiet_accounts {count : Int} {posts : Nat} {pc pc' : Pc}
    (waiting : pc'.waiting = pc.waiting) (owed : pc'.owed = pc.owed) (adds : pc.adds = 0)
    (sane : pc'.Sane) : Accounts count posts pc ⟨count,posts,pc',none⟩ := by
  constructor
  case balance => simp [taken, waiting, adds]
  case covered => simp only [waiting, owed]
  case sane => exact sane
  case found => simp

theorem took_accounts {count : Int} {posts : Nat} {pc : Pc} (positive : 0 < count)
    (plain : pc.waiting = 0 ∧ pc.owed = 0 ∧ pc.adds = 0) :
    Accounts count posts pc ⟨count - 1,posts,.idle,some true⟩ := by
  obtain ⟨notWaiting, notOwed, addsNone⟩ := plain
  constructor
  case balance =>
    simp only [taken, notWaiting, addsNone, waiting_idle, if_true]
    omega
  case covered =>
    simp only [notWaiting, notOwed, waiting_idle, owed_idle]
    omega
  case sane => exact trivial
  case found =>
    intro _
    omega

theorem woke_accounts {count : Int} {posts : Nat} {pc : Pc} (positive : 0 < posts)
    (waiting : pc.waiting = 1 ∧ pc.owed = 0 ∧ pc.adds = 0) :
    Accounts count posts pc ⟨count,posts - 1,.idle,some true⟩ := by
  obtain ⟨isWaiting, notOwed, addsNone⟩ := waiting
  constructor
  case balance =>
    simp only [taken, isWaiting, addsNone, waiting_idle, if_true]
    omega
  case covered =>
    simp only [isWaiting, notOwed, waiting_idle, owed_idle]
    omega
  case sane => exact trivial
  case found =>
    intro _
    omega

theorem turn_accounts (maxSpins : Nat) (count : Int) (posts : Nat) (fails : Bool) {pc : Pc}
    (sane : pc.Sane) : Accounts count posts pc (turn maxSpins count posts fails pc) := by
  cases pc with
  | idle => exact quiet_accounts rfl rfl rfl trivial
  | tryLoad whole =>
    rw [turn]
    split
    · rename_i positive
      exact quiet_accounts rfl rfl rfl positive
    · exact giveUp_accounts maxSpins count posts whole _ ⟨rfl, rfl, rfl⟩
  | tryCas old whole =>
    rw [turn]
    split
    · rename_i success
      rw [← success.1]
      exact took_accounts (success.1 ▸ sane) ⟨rfl, rfl, rfl⟩
    · split
      · rename_i positive
        exact quiet_accounts rfl rfl rfl positive
      · exact giveUp_accounts maxSpins count posts whole _ ⟨rfl, rfl, rfl⟩
  | spinLoad left timeout =>
    rw [turn]
    split
    · rename_i positive
      exact quiet_accounts rfl rfl rfl positive
    · exact quiet_accounts (spin_waiting timeout left) (spin_owed timeout left) rfl
        (spin_sane timeout left)
  | spinCas left old timeout =>
    rw [turn]
    split
    · rename_i success
      rw [← success]
      exact took_accounts (success ▸ sane) ⟨rfl, rfl, rfl⟩
    · exact quiet_accounts (spin_waiting timeout left) (spin_owed timeout left) rfl
        (spin_sane timeout left)
  | fetchSub timeout =>
    rw [turn]
    split
    · rename_i positive
      exact took_accounts positive ⟨rfl, rfl, rfl⟩
    · rename_i none
      -- the thread is counted as waiting now, and no post is there for it
      have waits : ∀ pc' : Pc, pc'.waiting = 1 → pc'.owed = 0 → pc'.Sane →
          Accounts count posts (.fetchSub timeout) ⟨count - 1,posts,pc',Option.none⟩ := by
        intro pc' waiting owed sane'
        constructor
        case balance => simp [taken, waiting, Pc.adds]
        case covered =>
          simp only [waiting, owed, waiting_fetchSub, owed_fetchSub]
          omega
        case sane => exact sane'
        case found => simp
      split
      · exact waits .adjustLoad rfl rfl trivial
      · exact waits .semaWait rfl rfl trivial
  | semaWait =>
    rw [turn]
    split
    · exact quiet_accounts rfl rfl rfl trivial
    · split
      · rename_i some_
        exact woke_accounts some_ ⟨rfl, rfl, rfl⟩
      · exact quiet_accounts rfl rfl rfl trivial
  | adjustLoad =>
    rw [turn]
    split
    · exact quiet_accounts rfl rfl rfl trivial
    · rename_i negative
      exact quiet_accounts rfl rfl rfl (not_le.mp negative)
  | adjustTryWait =>
    rw [turn]
    split
    · rename_i some_
      exact woke_accounts some_ ⟨rfl, rfl, rfl⟩
    · exact quiet_accounts rfl rfl rfl trivial
  | adjustCas old =>
    rw [turn]
    split
    · rename_i success
      have negative : old < 0 := sane
      constructor
      case balance =>
        simp only [taken, Pc.waiting, Pc.adds]
        simp
        omega
      case covered =>
        simp only [Pc.waiting, Pc.owed]
        omega
      case sane => exact trivial
      case found => simp
    · exact quiet_accounts rfl rfl rfl trivial
  | fetchAdd added =>
    rw [turn]
    generalize amount : (if -count < added then (-count).toNat else added) = k
    -- what is released is what the negative count falls by
    have released : (k : Int) = max 0 (-count) - max 0 (-(count + added)) := by
      split at amount <;> omega
    by_cases some_ : 0 < k
    · rw [if_pos some_]
      constructor
      case balance => simp [taken, Pc.adds]
      case covered =>
        simp only [waiting_fetchAdd, owed_fetchAdd, waiting_post, owed_post]
        omega
      case sane => exact some_
      case found => simp
    · rw [if_neg some_]
      constructor
      case balance => simp [taken, Pc.adds]
      case covered =>
        simp only [waiting_fetchAdd, owed_fetchAdd, waiting_idle, owed_idle]
        omega
      case sane => exact trivial
      case found => simp
  | post left =>
    have some_ : 0 < left := sane
    rw [turn]
    by_cases last : left ≤ 1
    · rw [if_pos last]
      constructor
      case balance => simp [taken, Pc.adds]
      case covered =>
        simp only [waiting_idle, owed_idle, waiting_post, owed_post]
        omega
      case sane => exact trivial
      case found => simp
    · rw [if_neg last]
      constructor
      case balance => simp [taken, Pc.adds]
      case covered =>
        simp only [waiting_post, owed_post]
        omega
      case sane =>
        show 0 < left - 1
        omega
      case found => simp

def State.waiting (s : State n) : Nat := ∑ p, (s.pcs p).waiting

def State.owed (s : State n) : Nat := ∑ p, (s.pcs p).owed

/-- `tokens` is what the callers have left: each is in the count or owed to a
    waiting thread, which the kernel or a signaller has a post for. -/
structure Kept (s : State n) (tokens : Nat) : Prop where
  balance : s.count + s.waiting = tokens
  covered : (s.waiting : Int) = s.posts + s.owed + max 0 (-s.count)
  sane : ∀ p, (s.pcs p).Sane

theorem Kept.available {s : State n} {tokens : Nat} (kept : Kept s tokens) :
    (tokens : Int) = max 0 s.count + s.posts + s.owed := by
  have balance := kept.balance
  have covered := kept.covered
  omega

theorem Kept.called {s : State n} {tokens : Nat} (kept : Kept s tokens) (p : Fin n) {pc : Pc}
    (plain : pc.waiting = 0 ∧ pc.owed = 0) (sane : pc.Sane) :
    Kept (s.call p pc).1 tokens ∧ (s.call p pc).2 = none := by
  rw [State.call]
  split
  · rename_i free
    refine ⟨?_, rfl⟩
    have waiting := sum_moved s.pcs Pc.waiting p pc
    have owed := sum_moved s.pcs Pc.owed p pc
    rw [free, waiting_idle, plain.1] at waiting
    rw [free, owed_idle, plain.2] at owed
    have balance := kept.balance
    have covered := kept.covered
    simp only [State.waiting, State.owed] at balance covered
    constructor
    case balance =>
      simp only [State.waiting]
      omega
    case covered =>
      simp only [State.waiting, State.owed]
      omega
    case sane =>
      intro q
      by_cases same : q = p
      · subst same
        simpa using sane
      · simpa [Function.update_of_ne same] using kept.sane q
  · exact ⟨kept, rfl⟩

theorem Kept.turned {s : State n} {tokens : Nat} (kept : Kept s tokens) (maxSpins : Nat)
    (p : Fin n) (fails : Bool) :
    taken (turn maxSpins s.count s.posts fails (s.pcs p)) ≤ tokens ∧
      Kept (step maxSpins s (.turn p fails)).1
        (tokens + (s.pcs p).adds - taken (turn maxSpins s.count s.posts fails (s.pcs p))) := by
  have accounts := turn_accounts maxSpins s.count s.posts fails (kept.sane p)
  simp only [step]
  generalize turn maxSpins s.count s.posts fails (s.pcs p) = r at accounts
  have waiting := sum_moved s.pcs Pc.waiting p r.pc
  have owed := sum_moved s.pcs Pc.owed p r.pc
  have balance := kept.balance
  have covered := kept.covered
  have available := kept.available
  simp only [State.waiting, State.owed] at balance covered
  have moved := accounts.balance
  have posted := accounts.covered
  have enough : taken r ≤ tokens := by
    rw [taken]
    split
    · rename_i success
      have found := accounts.found success
      omega
    · exact Nat.zero_le _
  refine ⟨enough, ?_⟩
  constructor
  case balance =>
    simp only [State.waiting]
    omega
  case covered =>
    simp only [State.waiting, State.owed]
    omega
  case sane =>
    intro q
    by_cases same : q = p
    · subst same
      simpa using accounts.sane
    · simpa [Function.update_of_ne same] using kept.sane q

theorem fetchAdd_returned (maxSpins : Nat) (count : Int) (posts : Nat) (fails : Bool)
    (added : Nat) : (turn maxSpins count posts fails (.fetchAdd added)).returned = none := rfl

theorem replay_event (maxSpins : Nat) (count : Int) (posts : Nat) (fails : Bool) (p : Fin n)
    (pc : Pc) {tokens : Nat}
    (enough : taken (turn maxSpins count posts fails pc) ≤ tokens) (rest : List (Event n)) :
    replay tokens ((event p pc (turn maxSpins count posts fails pc)).toList ++ rest) =
      replay (tokens + pc.adds - taken (turn maxSpins count posts fails pc)) rest := by
  by_cases isAdd : ∃ added, pc = .fetchAdd added
  · obtain ⟨added, rfl⟩ := isAdd
    have quiet : taken (turn maxSpins count posts fails (.fetchAdd added)) = 0 := by
      simp [taken, fetchAdd_returned]
    rw [quiet]
    rfl
  · have noAdds : pc.adds = 0 := by
      cases pc with
      | fetchAdd added => exact absurd ⟨added, rfl⟩ isAdd
      | _ => rfl
    generalize turn maxSpins count posts fails pc = r at enough
    have shown : event p pc r = r.returned.map (Event.returned p) := by
      cases pc with
      | fetchAdd added => exact absurd ⟨added, rfl⟩ isAdd
      | _ => cases answer : r.returned <;> simp [event, answer]
    rw [shown, noAdds]
    cases answer : r.returned with
    | none => simp [taken, answer]
    | some ok =>
      cases ok with
      | false => simp [taken, answer, replay]
      | true =>
        have one : taken r = 1 := by simp [taken, answer]
        rw [one] at enough ⊢
        obtain ⟨m, rfl⟩ := Nat.exists_eq_add_of_le' enough
        rfl

def run (maxSpins : Nat) (s : State n) (acts : List (Act n)) : State n :=
  acts.foldl (fun s a => (step maxSpins s a).1) s

def events (maxSpins : Nat) (s : State n) (acts : List (Act n)) : List (Event n) :=
  (outputs (step maxSpins) s acts).reduceOption

theorem reduceOption_head {α : Type} (o : Option α) (os : List (Option α)) :
    (o :: os).reduceOption = o.toList ++ os.reduceOption := by
  cases o with
  | none => exact List.reduceOption_cons_of_none os
  | some a => exact List.reduceOption_cons_of_some a os

theorem Kept.ran (maxSpins : Nat) (acts : List (Act n)) {s : State n} {tokens : Nat}
    (kept : Kept s tokens) :
    ∃ left, replay tokens (events maxSpins s acts) = some left ∧
      Kept (run maxSpins s acts) left := by
  induction acts generalizing s tokens with
  | nil => exact ⟨tokens, rfl, kept⟩
  | cons a acts ih =>
    have shape : events maxSpins s (a :: acts) =
        (step maxSpins s a).2.toList ++ events maxSpins (step maxSpins s a).1 acts :=
      reduceOption_head _ _
    have goesOn : ∀ {p : Fin n} {pc : Pc}, step maxSpins s a = s.call p pc →
        pc.waiting = 0 ∧ pc.owed = 0 → pc.Sane →
        ∃ left, replay tokens (events maxSpins s (a :: acts)) = some left ∧
          Kept (run maxSpins s (a :: acts)) left := by
      intro p pc same plain sane
      obtain ⟨kept', silent⟩ := kept.called p plain sane
      rw [← same] at kept' silent
      rw [shape, silent]
      exact ih kept'
    cases a with
    | wait p timeout => exact goesOn rfl ⟨rfl, rfl⟩ trivial
    | tryWait p => exact goesOn rfl ⟨rfl, rfl⟩ trivial
    | signal p count => exact goesOn rfl ⟨rfl, rfl⟩ trivial
    | turn p fails =>
      obtain ⟨enough, kept'⟩ := kept.turned maxSpins p fails
      obtain ⟨left, replayed, final⟩ := ih kept'
      refine ⟨left, ?_, final⟩
      rw [shape]
      simp only [step]
      rw [replay_event maxSpins s.count s.posts fails p (s.pcs p) enough]
      exact replayed

def start (n initial : Nat) : State n := { count := initial }

theorem kept_start (n initial : Nat) : Kept (start n initial) initial := by
  constructor
  case balance => simp [start, State.waiting, Pc.waiting]
  case covered => simp [start, State.waiting, State.owed, Pc.waiting, Pc.owed]
  case sane =>
    intro p
    exact trivial

/- Under every interleaving the answers are those of a plain counter: a wait that
   returns true took one token that was there, one that returns false took none,
   and every token of the counter is in `m_count`, posted or owed. -/
theorem semaphore_counts (n maxSpins initial : Nat) (acts : List (Act n)) :
    ∃ left, replay initial (events maxSpins (start n initial) acts) = some left ∧
      (left : Int) = max 0 (run maxSpins (start n initial) acts).count +
        (run maxSpins (start n initial) acts).posts +
        (run maxSpins (start n initial) acts).owed := by
  obtain ⟨left, replayed, kept⟩ := (kept_start n initial).ran maxSpins acts
  exact ⟨left, replayed, kept.available⟩

/- No wake-up is lost: a thread is left in the kernel without a post, and without a
   signaller that still owes one, only when every token has been taken. -/
theorem blocked_only_empty (n maxSpins initial : Nat) (acts : List (Act n)) {p : Fin n}
    (blocked : (run maxSpins (start n initial) acts).pcs p = .semaWait)
    (noPost : (run maxSpins (start n initial) acts).posts = 0)
    (noSignal : ∀ q left, (run maxSpins (start n initial) acts).pcs q ≠ .post left) :
    replay initial (events maxSpins (start n initial) acts) = some 0 := by
  obtain ⟨left, replayed, kept⟩ := (kept_start n initial).ran maxSpins acts
  generalize run maxSpins (start n initial) acts = s at blocked noPost noSignal kept
  have owedNothing : s.owed = 0 := by
    apply Finset.sum_eq_zero
    intro q _
    cases at_ : s.pcs q with
    | post left => exact absurd at_ (noSignal q left)
    | _ => rfl
  have waits : 1 ≤ s.waiting := by
    have one : (s.pcs p).waiting = 1 := by rw [blocked]; rfl
    rw [← one]
    exact Finset.single_le_sum (f := fun q => (s.pcs q).waiting) (fun q _ => Nat.zero_le _)
      (Finset.mem_univ p)
  have balance := kept.balance
  have covered := kept.covered
  have empty : left = 0 := by omega
  rw [replayed, empty]

/-- A token is signalled and taken, then the thread that took it waits again and goes to sleep. -/
def takenOnce (giver taker : Fin 2) : List (Act 2) :=
  [.signal giver 1, .turn giver false, .wait taker (-1), .turn taker false, .turn taker false,
    .wait taker (-1), .turn taker false, .turn taker false]

theorem blocked_only_empty_alone :
    (run 0 (start 2 0) (takenOnce 0 1)).pcs 1 = .semaWait ∧
      events 0 (start 2 0) (takenOnce 0 1) = [.added 0 1, .returned 1 true] ∧
      replay 0 (events 0 (start 2 0) (takenOnce 0 1)) = some 0 := by
  refine ⟨by decide, by decide,
    blocked_only_empty 2 0 0 (takenOnce 0 1) (p := 1) (by decide) (by decide) ?_⟩
  have nobody : ∀ q, ((run 0 (start 2 0) (takenOnce 0 1)).pcs q).owed = 0 := by decide
  have sane : ∀ q, ((run 0 (start 2 0) (takenOnce 0 1)).pcs q).Sane := by
    obtain ⟨_, _, kept⟩ := (kept_start 2 0).ran 0 (takenOnce 0 1)
    exact kept.sane
  intro q left posting
  have positive := sane q
  have none_ := nobody q
  rw [posting] at positive none_
  exact absurd none_ (Nat.pos_iff_ne_zero.mp positive)

end TinyMqSemaphore
