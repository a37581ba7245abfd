import Mathlib.Data.List.Basic

/-!
Deadlines for machines whose steps interleave. A rank pays for the steps that count, and an
odometer, which only some steps advance, says by how much the rank may go up.
-/
namespace Deadlines
variable {σ ι : Type*}

def paid (pay : ι → Nat) : List ι → Nat
  | [] => 0
  | i :: rest => pay i + paid pay rest

variable {next : σ → ι → σ} {Inv Done live : σ → Prop}

theorem kept_from (stays : ∀ s i, Done s → Done (next s i)) {s : σ} (done : Done s) (is : List ι) :
    Done (is.foldl next s) := by
  induction is generalizing s with
  | nil => exact done
  | cons i rest ih => exact ih (stays s i done)

theorem lost_before (lost : ∀ s i, live (next s i) → live s) {s : σ} {is : List ι}
    (alive : live (is.foldl next s)) : live s := by
  induction is generalizing s with
  | nil => exact alive
  | cons i rest ih => exact lost s i (ih alive)

/- Every step that counts takes one off the rank, which never reaches 0 and goes up only with
   the odometer: what is waited for happens before more has been paid than the rank and the
   odometer allow. `live` is what the run must not lose on the way. -/
theorem reached_within (pay : ι → Nat) (rank odometer : σ → Nat) (live : σ → Prop)
    (lost : ∀ s i, live (next s i) → live s) (stays : ∀ s i, Done s → Done (next s i))
    (step : ∀ s i, Inv s → live (next s i) → Done (next s i) ∨
      Inv (next s i) ∧ rank (next s i) + pay i + odometer s ≤ rank s + odometer (next s i))
    (positive : ∀ s, Inv s → 0 < rank s) {s : σ} {is : List ι} (start : Inv s)
    (alive : live (is.foldl next s))
    (enough : rank s + odometer (is.foldl next s) ≤ paid pay is + odometer s) :
    Done (is.foldl next s) := by
  induction is generalizing s with
  | nil =>
    have rest := positive s start
    simp only [paid, List.foldl_nil] at enough
    omega
  | cons i rest ih =>
    rw [List.foldl_cons] at alive enough ⊢
    simp only [paid] at enough
    rcases step s i start (lost_before lost alive) with done | ⟨after, less⟩
    · exact kept_from stays done rest
    · exact ih after alive (by omega)

end Deadlines
