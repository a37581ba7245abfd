import Mathlib.Data.List.Basic

/- Deterministic machines: a step takes an input and may give an output. Runs
   are lists of inputs, and a run may be required to meet a condition on the
   state before each of its steps. -/
namespace Machines
variable {σ τ ι ο : Type*}

/-- Every input of the run meets `P` in the state it is taken in. -/
def Meets (next : σ → ι → σ) (P : σ → ι → Prop) : σ → List ι → Prop
  | _, [] => True
  | s, i :: rest => P s i ∧ Meets next P (next s i) rest

instance Meets.decidable {next : σ → ι → σ} {P : σ → ι → Prop} [∀ s i, Decidable (P s i)] :
    ∀ s is, Decidable (Meets next P s is)
  | _, [] => inferInstanceAs (Decidable True)
  | s, i :: rest =>
    have : Decidable (Meets next P (next s i) rest) := Meets.decidable (next s i) rest
    inferInstanceAs (Decidable (P s i ∧ Meets next P (next s i) rest))

/-- The states of a run, the first and the last one included. -/
def states (next : σ → ι → σ) : σ → List ι → List σ
  | s, [] => [s]
  | s, i :: rest => s :: states next (next s i) rest

def outputs (step : σ → ι → σ × ο) : σ → List ι → List ο
  | _, [] => []
  | s, i :: rest => (step s i).2 :: outputs step (step s i).1 rest

/-- The outputs of a run, each judged against the state it was given in. -/
def Answers (next : τ → ι → τ) (A : τ → ι → ο → Prop) : τ → List ι → List ο → Prop
  | _, [], [] => True
  | t, i :: is, o :: os => A t i o ∧ Answers next A (next t i) is os
  | _, _, _ => False

theorem invariant_along {next : σ → ι → σ} {P : σ → ι → Prop} {Inv : σ → Prop}
    (kept : ∀ s i, Inv s → P s i → Inv (next s i)) {s : σ} {is : List ι}
    (start : Inv s) (meets : Meets next P s is) : ∀ t ∈ states next s is, Inv t := by
  induction is generalizing s with
  | nil => simpa [states] using start
  | cons i rest ih =>
    intro t member
    simp only [states, List.mem_cons] at member
    rcases member with same | later
    · subst same; exact start
    · exact ih (kept s i start meets.1) meets.2 t later

theorem invariant_reached {next : σ → ι → σ} {Inv : σ → Prop}
    (kept : ∀ s i, Inv s → Inv (next s i)) {s : σ} (start : Inv s) (is : List ι) :
    ∀ t ∈ states next s is, Inv t := by
  induction is generalizing s with
  | nil => simpa [states] using start
  | cons i rest ih =>
    intro t member
    rcases List.mem_cons.mp member with same | later
    · rw [same]
      exact start
    · exact ih (kept s i start) t later

/- Along a run that meets `Q`, an invariant holds exactly when every step meets the condition
   under which one step keeps it. -/
theorem invariant_iff_within {next : σ → ι → σ} {P Q : σ → ι → Prop} {Base Inv : σ → Prop}
    (based : ∀ s i, Base s → Inv s → Q s i → Base (next s i))
    (exact_ : ∀ s i, Base s → Inv s → Q s i → (Inv (next s i) ↔ P s i)) {s : σ} {is : List ι}
    (base : Base s) (start : Inv s) (within : Meets next Q s is) :
    (∀ t ∈ states next s is, Inv t) ↔ Meets next P s is := by
  induction is generalizing s with
  | nil => simp [states, Meets, start]
  | cons i rest ih =>
    have step := exact_ s i base start within.1
    have later := fun after => ih (based s i base start within.1) after within.2
    constructor
    · intro always
      have after : Inv (next s i) := by
        cases rest with
        | nil => exact always _ (by simp [states])
        | cons j rest => exact always _ (by simp [states])
      exact ⟨step.mp after, (later after).mp fun t member =>
        always t (List.mem_cons_of_mem s member)⟩
    · rintro ⟨first, others⟩ t member
      rcases List.mem_cons.mp member with same | after
      · rw [same]
        exact start
      · exact (later (step.mpr first)).mpr others t after

theorem meets_always {next : σ → ι → σ} (s : σ) (is : List ι) :
    Meets next (fun _ _ => True) s is := by
  induction is generalizing s with
  | nil => exact trivial
  | cons i rest ih => exact ⟨trivial, ih (next s i)⟩

theorem invariant_iff {next : σ → ι → σ} {P : σ → ι → Prop} {Base Inv : σ → Prop}
    (based : ∀ s i, Base s → Base (next s i))
    (exact_ : ∀ s i, Base s → Inv s → (Inv (next s i) ↔ P s i)) {s : σ} {is : List ι}
    (base : Base s) (start : Inv s) : (∀ t ∈ states next s is, Inv t) ↔ Meets next P s is :=
  invariant_iff_within (fun s i base _ _ => based s i base)
    (fun s i base holds _ => exact_ s i base holds) base start (meets_always s is)

theorem meets_and {next : σ → ι → σ} {P Q : σ → ι → Prop} {s : σ} {is : List ι}
    (first : Meets next P s is) (second : Meets next Q s is) :
    Meets next (fun s i => P s i ∧ Q s i) s is := by
  induction is generalizing s with
  | nil => exact trivial
  | cons i rest ih => exact ⟨⟨first.1, second.1⟩, ih first.2 second.2⟩

theorem meets_along {next : σ → ι → σ} {P Q : σ → ι → Prop} {Inv : σ → Prop}
    (kept : ∀ s i, Inv s → P s i → Inv (next s i)) (gives : ∀ s i, Inv s → P s i → Q s i)
    {s : σ} {is : List ι} (start : Inv s) (meets : Meets next P s is) : Meets next Q s is := by
  induction is generalizing s with
  | nil => exact trivial
  | cons i rest ih => exact ⟨gives s i start meets.1, ih (kept s i start meets.1) meets.2⟩

theorem last_state_mem (next : σ → ι → σ) (s : σ) (is : List ι) :
    is.foldl next s ∈ states next s is := by
  induction is generalizing s with
  | nil => simp [states]
  | cons i rest ih => simp [states, ih]

/- A machine simulates a specification: while the run stays admissible for the
   specification, the answers are the specified ones and the relation is kept. -/
theorem simulation {step : σ → ι → σ × ο} {next : τ → ι → τ} {P : τ → ι → Prop}
    {A : τ → ι → ο → Prop} {R : σ → τ → Prop}
    (square : ∀ s t i, R s t → P t i → A t i (step s i).2 ∧ R (step s i).1 (next t i))
    {s : σ} {t : τ} {is : List ι} (related : R s t) (meets : Meets next P t is) :
    Answers next A t is (outputs step s is) ∧
      R (is.foldl (fun s i => (step s i).1) s) (is.foldl next t) := by
  induction is generalizing s t with
  | nil => exact ⟨trivial, related⟩
  | cons i rest ih =>
    obtain ⟨answer, after⟩ := square s t i related meets.1
    obtain ⟨answers, last⟩ := ih after meets.2
    exact ⟨⟨answer, answers⟩, last⟩

end Machines
