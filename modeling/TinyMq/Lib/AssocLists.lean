import Mathlib.Algebra.BigOperators.Group.List.Basic
import Mathlib.Algebra.Order.Group.Multiset
import Mathlib.Tactic.Abel

/- A map with an iteration order, as a list of pairs. -/
namespace AssocLists
variable {κ α : Type} [DecidableEq κ]

abbrev Assoc (κ α : Type) := List (κ × α)

def get (m : Assoc κ α) (k : κ) : Option α := (m.find? (·.1 = k)).map (·.2)

def put : Assoc κ α → κ → α → Assoc κ α
  | [], k, a => [(k, a)]
  | p :: m, k, a => if p.1 = k then (k, a) :: m else p :: put m k a

def erase (m : Assoc κ α) (k : κ) : Assoc κ α := m.filter (·.1 ≠ k)

@[simp] theorem put_nil (k : κ) (a : α) : put [] k a = [(k, a)] := rfl

theorem put_cons (p : κ × α) (m : Assoc κ α) (k : κ) (a : α) :
    put (p :: m) k a = if p.1 = k then (k, a) :: m else p :: put m k a := rfl

@[simp] theorem get_nil (k : κ) : get ([] : Assoc κ α) k = none := rfl

theorem get_cons (p : κ × α) (m : Assoc κ α) (k : κ) :
    get (p :: m) k = if p.1 = k then some p.2 else get m k := by
  by_cases same : p.1 = k <;> simp [get, same]

theorem get_mapped {β : Type} (m : Assoc κ α) (g : α → β) (k : κ) :
    get (m.map fun e => (e.1, g e.2)) k = (get m k).map g := by
  induction m with
  | nil => rfl
  | cons e m ih =>
    rw [List.map_cons, get_cons, get_cons, ih]
    split <;> rfl

@[simp] theorem get_put_same (m : Assoc κ α) (k : κ) (a : α) : get (put m k a) k = some a := by
  induction m with
  | nil => simp [get_cons]
  | cons p m ih =>
    by_cases same : p.1 = k
    · simp [put_cons, same, get_cons]
    · simp [put_cons, same, get_cons, ih]

theorem get_put_other (m : Assoc κ α) {k l : κ} (a : α) (other : l ≠ k) :
    get (put m k a) l = get m l := by
  induction m with
  | nil => simp [get_cons, other.symm]
  | cons p m ih =>
    by_cases same : p.1 = k
    · simp [put_cons, same, get_cons, other.symm]
    · simp [put_cons, same, get_cons, ih]

theorem put_get {m : Assoc κ α} {k : κ} {a : α} (found : get m k = some a) : put m k a = m := by
  induction m with
  | nil => simp at found
  | cons p m ih =>
    by_cases same : p.1 = k
    · simp only [get_cons, same, if_true, Option.some.injEq] at found
      simp [put_cons, same, ← found]
      exact Prod.ext same.symm rfl
    · simp only [get_cons, same, if_false] at found
      simp [put_cons, same, ih found]

@[simp] theorem put_put (m : Assoc κ α) (k : κ) (a b : α) : put (put m k a) k b = put m k b := by
  induction m with
  | nil => simp [put_cons]
  | cons p m ih =>
    by_cases same : p.1 = k
    · simp [put_cons, same]
    · simp [put_cons, same, ih]

@[simp] theorem get_erase_same (m : Assoc κ α) (k : κ) : get (erase m k) k = none := by
  induction m with
  | nil => rfl
  | cons p m ih =>
    by_cases same : p.1 = k
    · simpa [erase, same] using ih
    · simpa [erase, same, get_cons] using ih

theorem get_erase_other (m : Assoc κ α) {k l : κ} (other : l ≠ k) :
    get (erase m k) l = get m l := by
  induction m with
  | nil => rfl
  | cons p m ih =>
    by_cases same : p.1 = k
    · have differs : k ≠ l := other.symm
      simpa [erase, same, get_cons, differs] using ih
    · by_cases hit : p.1 = l
      · simp [erase, get_cons, hit, other]
      · simpa [erase, same, get_cons, hit] using ih

theorem get_mem {m : Assoc κ α} {k : κ} {a : α}
    (found : get m k = some a) : (k, a) ∈ m := by
  induction m with
  | nil => simp at found
  | cons e m ih =>
    by_cases same : e.1 = k
    · simp only [get_cons, same, if_true, Option.some.injEq] at found
      have here : e = (k, a) := Prod.ext same found
      simp [here]
    · simp only [get_cons, same, if_false] at found
      exact List.mem_cons_of_mem e (ih found)

theorem get_ne_none {m : Assoc κ α} {e : κ × α} (member : e ∈ m) : get m e.1 ≠ none := by
  intro none
  rw [get, Option.map_eq_none_iff, List.find?_eq_none] at none
  exact none e member (by simp)

theorem mem_get {m : Assoc κ α} (distinct : (m.map Prod.fst).Nodup) {k : κ} {a : α}
    (member : (k, a) ∈ m) : get m k = some a := by
  induction m with
  | nil => cases member
  | cons e m ih =>
    rw [List.map_cons, List.nodup_cons] at distinct
    rcases List.mem_cons.mp member with here | there
    · simp [get_cons, ← here]
    · have other : e.1 ≠ k := by
        intro same
        exact distinct.1 (same ▸ List.mem_map_of_mem there)
      rw [get_cons, if_neg other]
      exact ih distinct.2 there

theorem keys_put (m : Assoc κ α) (k : κ) (a : α) :
    ∀ l, l ∈ (put m k a).map Prod.fst → l = k ∨ l ∈ m.map Prod.fst := by
  induction m with
  | nil => simp
  | cons e m ih =>
    intro l member
    by_cases same : e.1 = k
    · simp only [put_cons, same, if_true, List.map_cons, List.mem_cons] at member ⊢
      exact member.imp id fun later => Or.inr later
    · simp only [put_cons, same, if_false, List.map_cons, List.mem_cons] at member ⊢
      rcases member with here | later
      · exact Or.inr (Or.inl here)
      · exact (ih l later).imp id Or.inr

theorem nodup_put {m : Assoc κ α} (distinct : (m.map Prod.fst).Nodup) (k : κ) (a : α) :
    ((put m k a).map Prod.fst).Nodup := by
  induction m with
  | nil => simp
  | cons e m ih =>
    rw [List.map_cons, List.nodup_cons] at distinct
    by_cases same : e.1 = k
    · simp only [put_cons, same, if_true, List.map_cons, List.nodup_cons]
      rw [← same]
      exact distinct
    · simp only [put_cons, same, if_false, List.map_cons, List.nodup_cons]
      refine ⟨?_, ih distinct.2⟩
      intro member
      rcases keys_put m k a e.1 member with here | there
      · exact same here
      · exact distinct.1 there

theorem nodup_erase {m : Assoc κ α} (distinct : (m.map Prod.fst).Nodup) (k : κ) :
    ((erase m k).map Prod.fst).Nodup :=
  (List.filter_sublist.map _).nodup distinct

section Sums
variable {β : Type} (g : α → Multiset β)

theorem sum_put {m : Assoc κ α} {k : κ} {a : α} (found : get m k = some a) (b : α) :
    g a + ((put m k b).map fun e => g e.2).sum = g b + (m.map fun e => g e.2).sum := by
  induction m with
  | nil => simp at found
  | cons e m ih =>
    by_cases same : e.1 = k
    · simp only [get_cons, same, if_true, Option.some.injEq] at found
      simp only [put_cons, same, if_true, List.map_cons, List.sum_cons, found]
      abel
    · simp only [get_cons, same, if_false] at found
      have rest := ih found
      simp only [put_cons, same, if_false, List.map_cons, List.sum_cons]
      calc g a + (g e.2 + ((put m k b).map fun e => g e.2).sum)
          = g e.2 + (g a + ((put m k b).map fun e => g e.2).sum) := by abel
        _ = g e.2 + (g b + (m.map fun e => g e.2).sum) := by rw [rest]
        _ = g b + (g e.2 + (m.map fun e => g e.2).sum) := by abel

theorem sum_put_le (m : Assoc κ α) (k : κ) (b : α) :
    ((put m k b).map fun e => g e.2).sum ≤ g b + (m.map fun e => g e.2).sum := by
  induction m with
  | nil => simp
  | cons e m ih =>
    by_cases same : e.1 = k
    · simp only [put_cons, same, if_true, List.map_cons, List.sum_cons]
      rw [add_left_comm]
      exact le_add_of_nonneg_left (Multiset.zero_le _)
    · simp only [put_cons, same, if_false, List.map_cons, List.sum_cons]
      rw [add_left_comm]
      exact add_le_add_right ih _

theorem sum_erase_le (m : Assoc κ α) (k : κ) :
    ((erase m k).map fun e => g e.2).sum ≤ (m.map fun e => g e.2).sum := by
  induction m with
  | nil => simp [erase]
  | cons e m ih =>
    by_cases same : e.1 = k
    · have gone : erase (e :: m) k = erase m k := by simp [erase, same]
      rw [gone, List.map_cons, List.sum_cons]
      exact le_trans ih (le_add_of_nonneg_left (Multiset.zero_le _))
    · have kept : erase (e :: m) k = e :: erase m k := by simp [erase, same]
      rw [kept, List.map_cons, List.sum_cons, List.map_cons, List.sum_cons]
      exact add_le_add_right ih _

end Sums

end AssocLists
