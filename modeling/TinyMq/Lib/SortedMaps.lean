import TinyMq.Lib.AssocLists
import Mathlib.Order.Defs.LinearOrder

/- Maps as association lists in ascending order of their keys. An operation on a
   list with a lower part before and a higher part behind is an operation on the
   part between them. -/
namespace SortedMaps
open AssocLists
variable {κ α : Type} [LinearOrder κ]

def Ascending (m : Assoc κ α) : Prop := m.Pairwise fun a b => a.1 < b.1

def Below (k : κ) (m : Assoc κ α) : Prop := ∀ e ∈ m, e.1 < k

def Above (k : κ) (m : Assoc κ α) : Prop := ∀ e ∈ m, k < e.1

/-- Writes the value `f` makes of the one that is there, at the key's place. -/
def place (k : κ) (f : Option α → α) : Assoc κ α → Assoc κ α
  | [] => [(k, f none)]
  | e :: m =>
    if e.1 < k then e :: place k f m
    else if k = e.1 then (e.1, f (some e.2)) :: m
    else (k, f none) :: e :: m

@[simp] theorem place_nil (k : κ) (f : Option α → α) : place k f [] = [(k, f none)] := rfl

theorem place_cons (k : κ) (f : Option α → α) (e : κ × α) (m : Assoc κ α) :
    place k f (e :: m) = if e.1 < k then e :: place k f m
      else if k = e.1 then (e.1, f (some e.2)) :: m else (k, f none) :: e :: m := rfl

theorem ascending_parts {l m r : Assoc κ α} (sorted : Ascending (l ++ m ++ r)) : Ascending m := by
  rw [Ascending, List.pairwise_append, List.pairwise_append] at sorted
  exact sorted.1.2.1

theorem ascending_append {l m : Assoc κ α} :
    Ascending (l ++ m) ↔ Ascending l ∧ Ascending m ∧ ∀ a ∈ l, ∀ b ∈ m, a.1 < b.1 :=
  List.pairwise_append

theorem below_of_ascending {l r : Assoc κ α} {e : κ × α} (sorted : Ascending (l ++ e :: r)) :
    Below e.1 l := by
  intro a member
  exact (ascending_append.mp sorted).2.2 a member e List.mem_cons_self

theorem above_of_ascending {l r : Assoc κ α} {e : κ × α} (sorted : Ascending (l ++ e :: r)) :
    Above e.1 r :=
  (List.pairwise_cons.mp (ascending_append.mp sorted).2.1).1

theorem get_above {k : κ} {m : Assoc κ α} (above : Above k m) : get m k = none := by
  induction m with
  | nil => rfl
  | cons e m ih =>
    rw [get_cons, if_neg (above e List.mem_cons_self).ne']
    exact ih fun a member => above a (List.mem_cons_of_mem e member)

theorem get_append_left {k : κ} {l : Assoc κ α} (below : Below k l) (m : Assoc κ α) :
    get (l ++ m) k = get m k := by
  induction l with
  | nil => rfl
  | cons e l ih =>
    rw [List.cons_append, get_cons, if_neg (below e List.mem_cons_self).ne]
    exact ih fun a member => below a (List.mem_cons_of_mem e member)

theorem get_append_right {k : κ} (m : Assoc κ α) {r : Assoc κ α} (above : Above k r) :
    get (m ++ r) k = get m k := by
  induction m with
  | nil => exact get_above above
  | cons e m ih => rw [List.cons_append, get_cons, get_cons, ih]

theorem get_middle {k : κ} {l r : Assoc κ α} (below : Below k l) (above : Above k r)
    (m : Assoc κ α) : get (l ++ m ++ r) k = get m k := by
  rw [get_append_right (l ++ m) above, get_append_left below]

theorem place_append_left {k : κ} {l : Assoc κ α} (below : Below k l) (f : Option α → α)
    (m : Assoc κ α) : place k f (l ++ m) = l ++ place k f m := by
  induction l with
  | nil => rfl
  | cons e l ih =>
    rw [List.cons_append, place_cons, if_pos (below e List.mem_cons_self),
      ih fun a member => below a (List.mem_cons_of_mem e member), List.cons_append]

theorem place_above {k : κ} {r : Assoc κ α} (above : Above k r) (f : Option α → α) :
    place k f r = (k, f none) :: r := by
  cases r with
  | nil => rfl
  | cons e r =>
    have higher := above e List.mem_cons_self
    rw [place_cons, if_neg higher.not_gt, if_neg higher.ne]

theorem place_append_right {k : κ} (m : Assoc κ α) {r : Assoc κ α} (above : Above k r)
    (f : Option α → α) : place k f (m ++ r) = place k f m ++ r := by
  induction m with
  | nil => rw [List.nil_append, place_above above, place_nil, List.singleton_append]
  | cons e m ih =>
    rw [List.cons_append, place_cons, place_cons, ih]
    split
    · rfl
    · split <;> rfl

theorem place_middle {k : κ} {l r : Assoc κ α} (below : Below k l) (above : Above k r)
    (f : Option α → α) (m : Assoc κ α) :
    place k f (l ++ m ++ r) = l ++ place k f m ++ r := by
  rw [place_append_right (l ++ m) above, place_append_left below]

theorem place_found {k : κ} {l r : Assoc κ α} (below : Below k l) (f : Option α → α) (a : α) :
    place k f (l ++ (k, a) :: r) = l ++ (k, f (some a)) :: r := by
  rw [place_append_left below, place_cons, if_neg (lt_irrefl k), if_pos rfl]

theorem mem_place {k : κ} {f : Option α → α} {m : Assoc κ α} {e : κ × α}
    (member : e ∈ place k f m) : e.1 = k ∨ e ∈ m := by
  induction m with
  | nil =>
    left
    exact congrArg Prod.fst (List.mem_singleton.mp member)
  | cons a m ih =>
    rw [place_cons] at member
    split at member
    · rcases List.mem_cons.mp member with here | later
      · exact Or.inr (here ▸ List.mem_cons_self)
      · exact (ih later).imp id (List.mem_cons_of_mem a)
    · split at member
      · rename_i same
        rcases List.mem_cons.mp member with here | later
        · left
          rw [here, same]
        · exact Or.inr (List.mem_cons_of_mem a later)
      · rcases List.mem_cons.mp member with here | later
        · left
          rw [here]
        · exact Or.inr later

theorem ascending_place {m : Assoc κ α} (sorted : Ascending m) (k : κ) (f : Option α → α) :
    Ascending (place k f m) := by
  induction m with
  | nil => exact List.pairwise_singleton _ _
  | cons e m ih =>
    obtain ⟨first, rest⟩ := List.pairwise_cons.mp sorted
    rw [place_cons]
    split
    · rename_i lower
      refine List.pairwise_cons.mpr ⟨?_, ih rest⟩
      intro a member
      rcases mem_place member with new | old
      · rw [new]
        exact lower
      · exact first a old
    · rename_i notLower
      split
      · exact List.pairwise_cons.mpr ⟨first, rest⟩
      · rename_i other
        have higher : k < e.1 := lt_of_le_of_ne (not_lt.mp notLower) other
        refine List.pairwise_cons.mpr ⟨?_, sorted⟩
        intro a member
        rcases List.mem_cons.mp member with here | later
        · rw [here]
          exact higher
        · exact higher.trans (first a later)

theorem get_place {m : Assoc κ α} (sorted : Ascending m) (k : κ) (f : Option α → α) (l : κ) :
    get (place k f m) l = if l = k then some (f (get m k)) else get m l := by
  induction m with
  | nil =>
    by_cases same : l = k
    · simp [get_cons, same]
    · simp [get_cons, same, Ne.symm same]
  | cons e m ih =>
    obtain ⟨first, rest⟩ := List.pairwise_cons.mp sorted
    rw [place_cons]
    split
    · rename_i lower
      rw [get_cons, ih rest, get_cons, get_cons, if_neg lower.ne]
      by_cases here : e.1 = l
      · have other : l ≠ k := by
          rw [← here]
          exact lower.ne
        rw [if_pos here, if_neg other, if_pos here]
      · rw [if_neg here, if_neg here]
    · rename_i notLower
      split
      · rename_i same
        rw [get_cons, get_cons, if_pos same.symm, get_cons, ← same]
        by_cases here : k = l
        · rw [if_pos here, if_pos here.symm]
        · rw [if_neg here, if_neg (Ne.symm here), if_neg here]
      · rename_i other
        have higher : k < e.1 := lt_of_le_of_ne (not_lt.mp notLower) other
        have absent : get (e :: m) k = none := by
          apply get_above
          intro a member
          rcases List.mem_cons.mp member with here | later
          · rw [here]
            exact higher
          · exact higher.trans (first a later)
        rw [get_cons, absent]
        by_cases here : k = l
        · rw [if_pos here, if_pos here.symm]
        · rw [if_neg here, if_neg (Ne.symm here)]

theorem erase_below {k : κ} {l : Assoc κ α} (below : Below k l) : erase l k = l :=
  List.filter_eq_self.mpr fun e member => decide_eq_true (below e member).ne

theorem erase_above {k : κ} {r : Assoc κ α} (above : Above k r) : erase r k = r :=
  List.filter_eq_self.mpr fun e member => decide_eq_true (above e member).ne'

theorem erase_append (k : κ) (l m : Assoc κ α) : erase (l ++ m) k = erase l k ++ erase m k :=
  List.filter_append l m

theorem erase_middle {k : κ} {l r : Assoc κ α} (below : Below k l) (above : Above k r)
    (m : Assoc κ α) : erase (l ++ m ++ r) k = l ++ erase m k ++ r := by
  rw [erase_append, erase_append, erase_below below, erase_above above]

theorem erase_found {k : κ} {l r : Assoc κ α} (below : Below k l) (above : Above k r) (a : α) :
    erase (l ++ (k, a) :: r) k = l ++ r := by
  have single : erase [(k, a)] k = [] := by simp [erase]
  have middle := erase_middle below above [(k, a)]
  rw [single, List.append_nil, List.append_assoc, List.singleton_append] at middle
  exact middle

theorem ascending_erase {m : Assoc κ α} (sorted : Ascending m) (k : κ) : Ascending (erase m k) :=
  List.Pairwise.sublist List.filter_sublist sorted

theorem get_erase (m : Assoc κ α) (k l : κ) :
    get (erase m k) l = if l = k then none else get m l := by
  by_cases same : l = k
  · rw [if_pos same, same, get_erase_same]
  · rw [if_neg same, get_erase_other m same]

theorem length_place {m : Assoc κ α} (sorted : Ascending m) (k : κ) (f : Option α → α) :
    (place k f m).length = m.length + if get m k = none then 1 else 0 := by
  induction m with
  | nil => rfl
  | cons e m ih =>
    obtain ⟨first, rest⟩ := List.pairwise_cons.mp sorted
    rw [place_cons]
    split
    · rename_i lower
      rw [List.length_cons, ih rest, get_cons, if_neg lower.ne, List.length_cons]
      omega
    · rename_i notLower
      split
      · rename_i same
        rw [get_cons, if_pos same.symm, if_neg (by simp), List.length_cons, List.length_cons]
      · rename_i other
        have higher : k < e.1 := lt_of_le_of_ne (not_lt.mp notLower) other
        have absent : get (e :: m) k = none := by
          apply get_above
          intro a member
          rcases List.mem_cons.mp member with here | later
          · rw [here]
            exact higher
          · exact higher.trans (first a later)
        rw [if_pos absent, List.length_cons]

theorem length_erase {m : Assoc κ α} (sorted : Ascending m) (k : κ) :
    (erase m k).length + (if get m k = none then 0 else 1) = m.length := by
  induction m with
  | nil => rfl
  | cons e m ih =>
    obtain ⟨first, rest⟩ := List.pairwise_cons.mp sorted
    by_cases same : e.1 = k
    · have above : Above k m := same ▸ first
      have gone : erase (e :: m) k = m := by
        have shape : e :: m = [] ++ (k, e.2) :: m := by
          rw [← same, List.nil_append]
        rw [shape, erase_found (by intro a member; cases member) above, List.nil_append]
      rw [gone, get_cons, if_pos same, if_neg (by simp), List.length_cons]
    · have kept : erase (e :: m) k = e :: erase m k := by simp [erase, same]
      rw [kept, get_cons, if_neg same, List.length_cons, List.length_cons, ← ih rest]
      omega

end SortedMaps
