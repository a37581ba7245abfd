import TinyMq.Lib.SortedMaps
import Mathlib.Algebra.BigOperators.Group.List.Basic

/- The contents of a node of a search tree in order: its keys with the contents
   of its children woven between them. A leaf has no children, every other node
   one more than it has keys; a position of the node cuts both lists. -/
namespace Weaving
variable {α : Type}

def weave : List α → List (List α) → List α
  | ks, [] => ks
  | [], c :: cs => c ++ weave [] cs
  | k :: ks, c :: cs => c ++ k :: weave ks cs

/-- What follows the child at the position the keys begin at. -/
def trail : List α → List (List α) → List α
  | [], cs => weave [] cs
  | k :: ks, cs => k :: weave ks cs

@[simp] theorem weave_leaf (ks : List α) : weave ks [] = ks := by
  cases ks <;> rfl

@[simp] theorem weave_cons (ks : List α) (c : List α) (cs : List (List α)) :
    weave ks (c :: cs) = c ++ trail ks cs := by
  cases ks <;> rfl

@[simp] theorem trail_cons (k : α) (ks : List α) (cs : List (List α)) :
    trail (k :: ks) cs = k :: weave ks cs := rfl

@[simp] theorem trail_last : trail ([] : List α) [] = [] := rfl

theorem weave_append {ks : List α} {cs : List (List α)} (same : ks.length = cs.length)
    (ls : List α) (ds : List (List α)) :
    weave (ks ++ ls) (cs ++ ds) = weave ks cs ++ weave ls ds := by
  induction ks generalizing cs with
  | nil =>
    cases cs with
    | nil => rfl
    | cons c cs => cases same
  | cons k ks ih =>
    cases cs with
    | nil => cases same
    | cons c cs =>
      have rest : ks.length = cs.length := by simpa using same
      simp [ih rest, List.append_assoc]

theorem weave_join {ks : List α} {cs ds : List (List α)}
    (aligned : cs = [] ∧ ds = [] ∨ cs.length = ks.length + 1) (k : α) (ls : List α) :
    weave (ks ++ k :: ls) (cs ++ ds) = weave ks cs ++ k :: weave ls ds := by
  rcases aligned with ⟨noLeft, noRight⟩ | full
  · rw [noLeft, noRight, List.append_nil, weave_leaf, weave_leaf, weave_leaf]
  · induction ks generalizing cs with
    | nil =>
      obtain ⟨c, rfl⟩ := List.length_eq_one_iff.mp full
      simp
    | cons l ks ih =>
      cases cs with
      | nil => cases full
      | cons c cs =>
        have rest : cs.length = ks.length + 1 := by simpa using full
        simp [ih rest, List.append_assoc]

theorem length_weave {ks : List α} {cs : List (List α)} :
    (weave ks cs).length = ks.length + (cs.map List.length).sum := by
  induction cs generalizing ks with
  | nil => simp
  | cons c cs ih =>
    cases ks with
    | nil => simp [trail, ih]
    | cons k ks =>
      simp only [weave_cons, trail_cons, List.length_append, List.length_cons, ih, List.map_cons,
        List.sum_cons]
      omega

theorem keys_sublist (ks : List α) (cs : List (List α)) : List.Sublist ks (weave ks cs) := by
  induction cs generalizing ks with
  | nil => simp
  | cons c cs ih =>
    cases ks with
    | nil => exact List.nil_sublist _
    | cons k ks =>
      rw [weave_cons, trail_cons]
      exact (List.cons_sublist_cons.mpr (ih ks)).trans (List.sublist_append_right c _)

section Windows

theorem window {l : List α} {i : Nat} (inside : i < l.length) :
    ∃ before a after, l = before ++ a :: after ∧ before.length = i ∧ l[i]? = some a := by
  refine ⟨l.take i, l[i], l.drop (i + 1), ?_, ?_, List.getElem?_eq_getElem inside⟩
  · rw [← List.drop_eq_getElem_cons inside, List.take_append_drop]
  · exact List.length_take_of_le (Nat.le_of_lt inside)

theorem get_window (before : List α) (a : α) (after : List α) :
    (before ++ a :: after)[before.length]? = some a := by
  simp

theorem get_next_window (before : List α) (a b : α) (after : List α) :
    (before ++ a :: b :: after)[before.length + 1]? = some b := by
  simp

theorem set_window (before : List α) (a b : α) (after : List α) :
    (before ++ a :: after).set before.length b = before ++ b :: after := by
  simp

theorem set_next_window (before : List α) (a b c : α) (after : List α) :
    (before ++ a :: b :: after).set (before.length + 1) c = before ++ a :: c :: after := by
  simp

theorem eraseIdx_window (before : List α) (a : α) (after : List α) :
    (before ++ a :: after).eraseIdx before.length = before ++ after := by
  simp [List.eraseIdx_append]

theorem eraseIdx_next_window (before : List α) (a b : α) (after : List α) :
    (before ++ a :: b :: after).eraseIdx (before.length + 1) = before ++ a :: after := by
  simp [List.eraseIdx_append]

theorem insertIdx_window (before : List α) (a : α) (after : List α) :
    (before ++ after).insertIdx before.length a = before ++ a :: after := by
  induction before with
  | nil => simp
  | cons b before ih => simpa using ih

theorem insertIdx_next_window (before : List α) (a b : α) (after : List α) :
    (before ++ a :: after).insertIdx (before.length + 1) b = before ++ a :: b :: after := by
  induction before with
  | nil => simp
  | cons c before ih => simpa using ih

end Windows

section Ordered
open AssocLists SortedMaps
variable {κ β : Type} [LinearOrder κ]

theorem below_weave {k : κ} {ks : Assoc κ β} {cs : List (Assoc κ β)}
    (same : ks.length = cs.length) (sorted : Ascending (weave ks cs)) (below : Below k ks) :
    Below k (weave ks cs) := by
  induction ks generalizing cs with
  | nil =>
    cases cs with
    | nil => exact below
    | cons c cs => cases same
  | cons e ks ih =>
    cases cs with
    | nil => cases same
    | cons c cs =>
      rw [weave_cons, trail_cons] at sorted ⊢
      have rest : ks.length = cs.length := by simpa using same
      have tail : Ascending (weave ks cs) :=
        (List.pairwise_cons.mp (ascending_append.mp sorted).2.1).2
      have first : e.1 < k := below e List.mem_cons_self
      intro a member
      rcases List.mem_append.mp member with inChild | later
      · exact (below_of_ascending sorted a inChild).trans first
      · rcases List.mem_cons.mp later with here | after
        · exact here ▸ first
        · exact ih rest tail (fun b inside => below b (List.mem_cons_of_mem e inside)) a after

theorem above_trail {k : κ} {ks : Assoc κ β} {cs : List (Assoc κ β)}
    (same : ks.length = cs.length) (sorted : Ascending (trail ks cs))
    (above : ∀ e ∈ ks.head?, k < e.1) : Above k (trail ks cs) := by
  cases ks with
  | nil =>
    cases cs with
    | nil =>
      intro e member
      cases member
    | cons c cs => cases same
  | cons e ks =>
    have first : k < e.1 := above e rfl
    rw [trail_cons] at sorted ⊢
    intro a member
    rcases List.mem_cons.mp member with here | later
    · exact here ▸ first
    · exact first.trans ((List.pairwise_cons.mp sorted).1 a later)

end Ordered

end Weaving
