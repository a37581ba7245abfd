import Mathlib.Algebra.BigOperators.Fin
import Mathlib.Algebra.Order.BigOperators.Group.Finset
import Mathlib.Data.Finset.Card
import Mathlib.Data.Finset.Max

/-!
Tickets for a counter that many threads read ahead of its supply. A thread reads how many
tickets were given back, takes a ticket, and may have an item just if its ticket, less what it
read, is below the supply; else it gives the ticket back. However old the reading is,
there is an item for every thread that may have one.
-/
namespace OptimisticTickets
variable {n : Nat}

def Sole {ι : Type*} (holds : Fin n → Option ι) : Prop :=
  ∀ c d i, holds c = some i → holds d = some i → c = d

theorem held_update {ι : Type*} {holds : Fin n → Option ι} {c d : Fin n} {v : Option ι} {i : ι}
    (here : Function.update holds c v d = some i) :
    d = c ∧ v = some i ∨ d ≠ c ∧ holds d = some i := by
  by_cases same : d = c
  · rw [same, Function.update_self] at here
    exact .inl ⟨same,here⟩
  · rw [Function.update_of_ne same] at here
    exact .inr ⟨same,here⟩

theorem Sole.drop {ι : Type*} {holds : Fin n → Option ι} (sole : Sole holds) (c : Fin n) :
    Sole (Function.update holds c none) := by
  intro d e i first second
  rcases held_update first with ⟨_,none⟩ | ⟨_,first⟩
  · cases none
  · rcases held_update second with ⟨_,none⟩ | ⟨_,second⟩
    · cases none
    · exact sole d e i first second

theorem Sole.take {ι : Type*} {holds : Fin n → Option ι} (sole : Sole holds) (c : Fin n) {i : ι}
    (free : ∀ d, d ≠ c → holds d ≠ some i) : Sole (Function.update holds c (some i)) := by
  intro d e j first second
  rcases held_update first with ⟨own,here⟩ | ⟨other,first⟩
  · cases here
    rcases held_update second with ⟨same,_⟩ | ⟨other,second⟩
    · rw [own, same]
    · exact absurd second (free e other)
  · rcases held_update second with ⟨own,here⟩ | ⟨_,second⟩
    · cases here
      exact absurd first (free d other)
    · exact sole d e j first second

/-- Where a thread is with its ticket. `read` is how many it saw given back. -/
inductive Ticket where
  | out
  | reading (read : Nat)
  | undecided (number read : Nat)
  | failed (number : Nat)
  | passed
  deriving DecidableEq

/-- The ticket that a thread holds and has not decided about, or has not given back. -/
def Ticket.number : Ticket → Option Nat
  | .undecided m _ | .failed m => some m
  | _ => none

def Ticket.claims : Ticket → Nat
  | .passed => 1
  | _ => 0

def before (counted : Finset Nat) (m : Nat) : Nat := (counted.filter (· < m)).card

/-- The counts are those of the tickets: `issued` so many, `returned` of them given back, the
    others passed or held. `supply` counts the items and `claimed` those given to threads. -/
structure Tickets (supply claimed issued returned : Nat) (view : Fin n → Ticket)
    (passed counted : Finset Nat) : Prop where
  passed_lt : ∀ m ∈ passed, m < issued
  counted_lt : ∀ m ∈ counted, m < issued
  apart : Disjoint passed counted
  counts : counted.card = returned
  reading : ∀ c k, view c = .reading k → k ≤ returned
  undecided : ∀ c m k, view c = .undecided m k → k ≤ before counted m
  held : ∀ c m, (view c).number = some m → m < issued ∧ m ∉ passed ∧ m ∉ counted
  unique : Sole (Ticket.number ∘ view)
  accounted : ∀ m < issued, m ∈ passed ∨ m ∈ counted ∨ ∃ c, (view c).number = some m
  paid : ∀ m ∈ passed, m + 1 ≤ supply + before counted m
  claims : claimed + ∑ c, (view c).claims = passed.card

variable {supply claimed issued returned : Nat} {view : Fin n → Ticket}
  {passed counted : Finset Nat}

theorem before_mono {other : Finset Nat} (more : counted ⊆ other) (m : Nat) :
    before counted m ≤ before other m :=
  Finset.card_le_card (Finset.filter_subset_filter _ more)

theorem before_all (all : ∀ m ∈ counted, m < issued) : before counted issued = counted.card := by
  unfold before
  rw [Finset.filter_true_of_mem all]

theorem Tickets.passed_le (t : Tickets supply claimed issued returned view passed counted) :
    passed.card ≤ supply := by
  by_cases some : passed.Nonempty
  · have last := passed.max'_mem some
    have paid := t.paid _ last
    have apart : Disjoint passed (counted.filter (· < passed.max' some)) :=
      t.apart.mono_right (Finset.filter_subset _ _)
    have inside : passed ∪ counted.filter (· < passed.max' some) ⊆
        Finset.range (passed.max' some + 1) := by
      intro m member
      rw [Finset.mem_range]
      rcases Finset.mem_union.mp member with here | there
      · have := passed.le_max' m here
        omega
      · have := (Finset.mem_filter.mp there).2
        omega
    have bound := Finset.card_le_card inside
    rw [Finset.card_union_of_disjoint apart, Finset.card_range] at bound
    unfold before at paid
    omega
  · rw [Finset.not_nonempty_iff_eq_empty.mp some]
    exact Nat.zero_le _

theorem Tickets.claimed_lt (t : Tickets supply claimed issued returned view passed counted)
    {c : Fin n} (at_ : view c = .passed) : claimed < supply := by
  have most := t.passed_le
  have claims := t.claims
  have one : (view c).claims ≤ ∑ c, (view c).claims :=
    Finset.single_le_sum (f := fun c => (view c).claims) (fun _ _ => Nat.zero_le _)
      (Finset.mem_univ c)
  rw [at_] at one
  have own : Ticket.passed.claims = 1 := rfl
  omega

theorem Tickets.claimed_le (t : Tickets supply claimed issued returned view passed counted) :
    claimed ≤ supply := by
  have most := t.passed_le
  have claims := t.claims
  omega

theorem Tickets.quiet (t : Tickets supply claimed issued returned view passed counted)
    (quiet : ∀ c, view c = .out) : issued = claimed + returned := by
  have all : passed ∪ counted = Finset.range issued := by
    ext m
    rw [Finset.mem_union, Finset.mem_range]
    constructor
    · intro member
      rcases member with here | there
      · exact t.passed_lt m here
      · exact t.counted_lt m there
    · intro below
      rcases t.accounted m below with here | there | ⟨c, own⟩
      · exact .inl here
      · exact .inr there
      · simp [quiet c, Ticket.number] at own
  have card := congrArg Finset.card all
  rw [Finset.card_union_of_disjoint t.apart, Finset.card_range] at card
  have claims := t.claims
  have none : ∑ c, (view c).claims = 0 := by
    apply Finset.sum_eq_zero
    intro c _
    rw [quiet c]
    rfl
  have counts := t.counts
  omega

theorem claims_moved (view : Fin n → Ticket) (c : Fin n) (v : Ticket) :
    ∑ d, (Function.update view c v d).claims + (view c).claims = ∑ d, (view d).claims + v.claims := by
  have moved : (fun d => (Function.update view c v d).claims) =
      Function.update (fun d => (view d).claims) c v.claims := by
    funext d
    by_cases same : d = c
    · subst same
      simp
    · simp [Function.update_of_ne same]
  have inside : c ∈ Finset.univ := Finset.mem_univ c
  rw [moved, Finset.sum_update_of_mem inside,
    ← Finset.add_sum_erase Finset.univ (fun d => (view d).claims) inside,
    Finset.sdiff_singleton_eq_erase]
  omega

theorem numbers_kept {c : Fin n} {v : Ticket} (same : v.number = (view c).number) :
    Ticket.number ∘ Function.update view c v = Ticket.number ∘ view := by
  rw [Function.comp_update, same]
  exact Function.update_eq_self c _

theorem tickets_fresh (n : Nat) : Tickets 0 0 0 0 (fun _ : Fin n => .out) ∅ ∅ where
  passed_lt _ member := by simp at member
  counted_lt _ member := by simp at member
  apart := Finset.disjoint_empty_left _
  counts := rfl
  reading _ _ here := by cases here
  undecided _ _ _ here := by cases here
  held _ _ here := by cases here
  unique _ _ _ here := by cases here
  accounted _ below := absurd below (Nat.not_lt_zero _)
  paid _ member := by simp at member
  claims := by simp [Ticket.claims]

theorem Tickets.supplied (t : Tickets supply claimed issued returned view passed counted) :
    Tickets (supply + 1) claimed issued returned view passed counted :=
  { t with
    paid := fun m member => by
      have := t.paid m member
      omega }

theorem Tickets.read (t : Tickets supply claimed issued returned view passed counted) (c : Fin n)
    {v : Ticket} (old : (view c).number = none ∧ (view c).claims = 0)
    (new : v = .out ∨ v = .reading returned) :
    Tickets supply claimed issued returned (Function.update view c v) passed counted := by
  have plain : v.number = none ∧ v.claims = 0 := by
    rcases new with rfl | rfl <;> exact ⟨rfl, rfl⟩
  have same_numbers : Ticket.number ∘ Function.update view c v = Ticket.number ∘ view :=
    numbers_kept (plain.1.trans old.1.symm)
  have numbers := congrFun same_numbers
  have moved := claims_moved view c v
  have claims := t.claims
  refine
    { t with
      reading := ?_
      undecided := ?_
      held := fun d m own => t.held d m ((numbers d).symm.trans own)
      unique := by
        rw [same_numbers]
        exact t.unique
      accounted := ?_
      claims := by omega }
  · intro d k here
    by_cases same : d = c
    · subst same
      rw [Function.update_self] at here
      rcases new with out | reads
      · rw [out] at here
        cases here
      · rw [reads] at here
        cases here
        exact le_rfl
    · rw [Function.update_of_ne same] at here
      exact t.reading d k here
  · intro d m k here
    by_cases same : d = c
    · subst same
      rw [Function.update_self] at here
      rw [here] at plain
      cases plain.1
    · rw [Function.update_of_ne same] at here
      exact t.undecided d m k here
  · intro m below
    rcases t.accounted m below with here | there | ⟨d, own⟩
    · exact .inl here
    · exact .inr (.inl there)
    · exact .inr (.inr ⟨d, (numbers d).trans own⟩)

theorem Tickets.issue (t : Tickets supply claimed issued returned view passed counted) {c : Fin n}
    {k : Nat} (at_ : view c = .reading k) :
    Tickets supply claimed (issued + 1) returned (Function.update view c (.undecided issued k))
      passed counted := by
  have moved := claims_moved view c (.undecided issued k)
  have claims := t.claims
  rw [at_] at moved
  simp only [Ticket.claims] at moved claims
  refine
    { passed_lt := fun m member => (t.passed_lt m member).trans (Nat.lt_succ_self _)
      counted_lt := fun m member => (t.counted_lt m member).trans (Nat.lt_succ_self _)
      apart := t.apart
      counts := t.counts
      reading := ?_
      undecided := ?_
      held := ?_
      unique := ?_
      accounted := ?_
      paid := t.paid
      claims := by simp only [Ticket.claims]; omega }
  · intro d k here
    by_cases same : d = c
    · subst same
      rw [Function.update_self] at here
      cases here
    · rw [Function.update_of_ne same] at here
      exact t.reading d k here
  · intro d m k' here
    by_cases same : d = c
    · subst same
      rw [Function.update_self] at here
      cases here
      rw [before_all t.counted_lt, t.counts]
      exact t.reading d k at_
    · rw [Function.update_of_ne same] at here
      exact t.undecided d m k' here
  · intro d m own
    by_cases same : d = c
    · subst same
      rw [Function.update_self] at own
      cases own
      refine ⟨Nat.lt_succ_self _, ?_, ?_⟩
      · exact fun member => absurd (t.passed_lt _ member) (Nat.lt_irrefl _)
      · exact fun member => absurd (t.counted_lt _ member) (Nat.lt_irrefl _)
    · rw [Function.update_of_ne same] at own
      obtain ⟨below, others⟩ := t.held d m own
      exact ⟨below.trans (Nat.lt_succ_self _), others⟩
  · -- the new ticket is above all that are held
    rw [Function.comp_update]
    apply t.unique.take c
    intro d _ own
    exact absurd (t.held d issued own).1 (Nat.lt_irrefl _)
  · intro m below
    by_cases latest : m = issued
    · refine .inr (.inr ⟨c, ?_⟩)
      rw [Function.update_self, latest]
      rfl
    · rcases t.accounted m (by omega) with here | there | ⟨d, own⟩
      · exact .inl here
      · exact .inr (.inl there)
      · refine .inr (.inr ⟨d, ?_⟩)
        have other : d ≠ c := by
          intro same
          rw [same, at_] at own
          cases own
        rw [Function.update_of_ne other]
        exact own

theorem Tickets.reading_moved
    (t : Tickets supply claimed issued returned view passed counted) {c : Fin n} {v : Ticket}
    (new : ∀ k, v ≠ .reading k) (d : Fin n) (k : Nat)
    (here : Function.update view c v d = .reading k) : k ≤ returned := by
  by_cases same : d = c
  · rw [same, Function.update_self] at here
    exact absurd here (new k)
  · rw [Function.update_of_ne same] at here
    exact t.reading d k here

theorem Tickets.undecided_moved
    (t : Tickets supply claimed issued returned view passed counted) {c : Fin n} {v : Ticket}
    (new : ∀ m k, v ≠ .undecided m k) (d : Fin n) (m k : Nat)
    (here : Function.update view c v d = .undecided m k) : k ≤ before counted m := by
  by_cases same : d = c
  · rw [same, Function.update_self] at here
    exact absurd here (new m k)
  · rw [Function.update_of_ne same] at here
    exact t.undecided d m k here

theorem Tickets.number_moved
    (t : Tickets supply claimed issued returned view passed counted) {c : Fin n} {v : Ticket}
    {number : Nat} (own : (view c).number = some number) (new : v.number = none) {d : Fin n}
    {m : Nat} (here : (Function.update view c v d).number = some m) :
    (view d).number = some m ∧ m ≠ number := by
  have other : d ≠ c := by
    intro same
    rw [same, Function.update_self, new] at here
    cases here
  rw [Function.update_of_ne other] at here
  refine ⟨here, ?_⟩
  intro same
  exact other (t.unique d c m here (same ▸ own))

theorem Tickets.pass (t : Tickets supply claimed issued returned view passed counted) {c : Fin n}
    {m k : Nat} (at_ : view c = .undecided m k) (supplied : (m : Int) - k < supply) :
    Tickets supply claimed issued returned (Function.update view c .passed) (insert m passed)
      counted := by
  have own : (view c).number = some m := by rw [at_]; rfl
  obtain ⟨below, unpassed, uncounted⟩ := t.held c m own
  have early := t.undecided c m k at_
  have moved := claims_moved view c .passed
  have claims := t.claims
  rw [at_] at moved
  simp only [Ticket.claims] at moved claims
  refine
    { passed_lt := ?_
      counted_lt := t.counted_lt
      apart := Finset.disjoint_insert_left.mpr ⟨uncounted, t.apart⟩
      counts := t.counts
      reading := t.reading_moved nofun
      undecided := t.undecided_moved nofun
      held := ?_
      unique := ?_
      accounted := ?_
      paid := ?_
      claims := ?_ }
  · intro x member
    rcases Finset.mem_insert.mp member with same | old
    · rwa [same]
    · exact t.passed_lt x old
  · intro d x here
    obtain ⟨held, other⟩ := t.number_moved own rfl here
    obtain ⟨issued, outside, notBack⟩ := t.held d x held
    refine ⟨issued, ?_, notBack⟩
    exact fun member => (Finset.mem_insert.mp member).elim other outside
  · rw [Function.comp_update]
    exact t.unique.drop c
  · intro x issued
    rcases t.accounted x issued with here | there | ⟨d, holds⟩
    · exact .inl (Finset.mem_insert_of_mem here)
    · exact .inr (.inl there)
    · by_cases same : d = c
      · rw [same, own] at holds
        cases holds
        exact .inl (Finset.mem_insert_self _ _)
      · refine .inr (.inr ⟨d, ?_⟩)
        rwa [Function.update_of_ne same]
  · intro x member
    rcases Finset.mem_insert.mp member with same | old
    · rw [same]
      omega
    · exact t.paid x old
  · rw [Finset.card_insert_of_notMem unpassed]
    simp only [Ticket.claims]
    omega

theorem Tickets.refuse (t : Tickets supply claimed issued returned view passed counted) {c : Fin n}
    {m k : Nat} (at_ : view c = .undecided m k) :
    Tickets supply claimed issued returned (Function.update view c (.failed m)) passed counted := by
  have moved := claims_moved view c (.failed m)
  have claims := t.claims
  rw [at_] at moved
  simp only [Ticket.claims] at moved claims
  have same_numbers : Ticket.number ∘ Function.update view c (.failed m) = Ticket.number ∘ view := by
    apply numbers_kept
    rw [at_]
    rfl
  have numbers := congrFun same_numbers
  refine
    { t with
      reading := t.reading_moved nofun
      undecided := t.undecided_moved nofun
      held := fun d x own => t.held d x ((numbers d).symm.trans own)
      unique := by
        rw [same_numbers]
        exact t.unique
      accounted := ?_
      claims := by simp only [Ticket.claims]; omega }
  intro x issued
  rcases t.accounted x issued with here | there | ⟨d, holds⟩
  · exact .inl here
  · exact .inr (.inl there)
  · exact .inr (.inr ⟨d, (numbers d).trans holds⟩)

theorem Tickets.giveBack (t : Tickets supply claimed issued returned view passed counted)
    {c : Fin n} {m : Nat} (at_ : view c = .failed m) :
    Tickets supply claimed issued (returned + 1) (Function.update view c .out) passed
      (insert m counted) := by
  have own : (view c).number = some m := by rw [at_]; rfl
  obtain ⟨below, unpassed, uncounted⟩ := t.held c m own
  have moved := claims_moved view c .out
  have claims := t.claims
  rw [at_] at moved
  simp only [Ticket.claims] at moved claims
  have more := before_mono (Finset.subset_insert m counted)
  refine
    { passed_lt := t.passed_lt
      counted_lt := ?_
      apart := Finset.disjoint_insert_right.mpr ⟨unpassed, t.apart⟩
      counts := by rw [Finset.card_insert_of_notMem uncounted, t.counts]
      reading := fun d k here => (t.reading_moved (v := .out) nofun d k here).trans (Nat.le_succ _)
      undecided := fun d x k here => (t.undecided_moved (v := .out) nofun d x k here).trans (more x)
      held := ?_
      unique := ?_
      accounted := ?_
      paid := fun x member => (t.paid x member).trans (Nat.add_le_add_left (more x) _)
      claims := by simp only [Ticket.claims]; omega }
  · intro x member
    rcases Finset.mem_insert.mp member with same | old
    · rwa [same]
    · exact t.counted_lt x old
  · intro d x here
    obtain ⟨held, other⟩ := t.number_moved own rfl here
    obtain ⟨issued, unpassed, outside⟩ := t.held d x held
    refine ⟨issued, unpassed, ?_⟩
    exact fun member => (Finset.mem_insert.mp member).elim other outside
  · rw [Function.comp_update]
    exact t.unique.drop c
  · intro x issued
    rcases t.accounted x issued with here | there | ⟨d, holds⟩
    · exact .inl here
    · exact .inr (.inl (Finset.mem_insert_of_mem there))
    · by_cases same : d = c
      · rw [same, own] at holds
        cases holds
        exact .inr (.inl (Finset.mem_insert_self _ _))
      · refine .inr (.inr ⟨d, ?_⟩)
        rwa [Function.update_of_ne same]

theorem Tickets.claim (t : Tickets supply claimed issued returned view passed counted) {c : Fin n}
    (at_ : view c = .passed) :
    Tickets supply (claimed + 1) issued returned (Function.update view c .out) passed counted := by
  have moved := claims_moved view c .out
  have claims := t.claims
  rw [at_] at moved
  simp only [Ticket.claims] at moved claims
  have same_numbers : Ticket.number ∘ Function.update view c .out = Ticket.number ∘ view := by
    apply numbers_kept
    rw [at_]
    rfl
  have numbers := congrFun same_numbers
  refine
    { t with
      reading := t.reading_moved nofun
      undecided := t.undecided_moved nofun
      held := fun d x own => t.held d x ((numbers d).symm.trans own)
      unique := by
        rw [same_numbers]
        exact t.unique
      accounted := ?_
      claims := by simp only [Ticket.claims]; omega }
  intro x issued
  rcases t.accounted x issued with here | there | ⟨d, holds⟩
  · exact .inl here
  · exact .inr (.inl there)
  · exact .inr (.inr ⟨d, (numbers d).trans holds⟩)

end OptimisticTickets
