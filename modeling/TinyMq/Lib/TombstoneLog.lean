import Mathlib.Data.List.Basic

/- An append-only log with tombstones: entries keep their position for ever and
   a removal only raises the flag of its own entry. A key is found at the first
   live entry that carries it. -/
namespace TombstoneLog
variable {κ α : Type}

structure Entry (κ α : Type) where
  key : κ
  data : α
  removed : Bool := false
  deriving DecidableEq, Repr

abbrev Log (κ α : Type) := List (Entry κ α)

def append (log : Log κ α) (k : κ) (d : α) : Log κ α := log ++ [⟨k,d,false⟩]

def remove (log : Log κ α) (i : Nat) : Log κ α :=
  log.modify i fun e => { e with removed := true }

def keys (log : Log κ α) : List κ := log.map Entry.key

def live (log : Log κ α) : Log κ α := log.filter fun e => !e.removed

@[simp] theorem keys_append (log : Log κ α) (k : κ) (d : α) :
    keys (append log k d) = keys log ++ [k] := by
  simp [keys, append]

@[simp] theorem keys_remove (log : Log κ α) (i : Nat) : keys (remove log i) = keys log := by
  unfold keys remove
  induction log generalizing i with
  | nil => simp
  | cons e log ih =>
    cases i with
    | zero => simp
    | succ i => simp [ih]

theorem mem_remove {log : Log κ α} {i : Nat} {e : Entry κ α} (member : e ∈ remove log i) :
    ∃ old ∈ log, e.key = old.key ∧ e.data = old.data ∧ (e.removed = false → old = e) := by
  unfold remove at member
  induction log generalizing i with
  | nil => simp at member
  | cons x log ih =>
    cases i with
    | zero =>
      simp only [List.modify_zero_cons, List.mem_cons] at member
      rcases member with here | there
      · exact ⟨x, by simp, by rw [here], by rw [here], by rw [here]; simp⟩
      · exact ⟨e, List.mem_cons_of_mem x there, rfl, rfl, fun _ => rfl⟩
    | succ i =>
      simp only [List.modify_succ_cons, List.mem_cons] at member
      rcases member with here | there
      · exact ⟨x, by simp, by rw [here], by rw [here], fun _ => here.symm⟩
      · obtain ⟨old, inside, rest⟩ := ih there
        exact ⟨old, List.mem_cons_of_mem x inside, rest⟩

theorem remove_split (a b : Log κ α) (e : Entry κ α) :
    remove (a ++ e :: b) a.length = a ++ { e with removed := true } :: b := by
  induction a with
  | nil => rfl
  | cons x a ih => simpa [remove] using ih

theorem keys_split_removed (a b : Log κ α) (e : Entry κ α) :
    keys (a ++ { e with removed := true } :: b) = keys (a ++ e :: b) := by
  simp [keys]

theorem keys_live_subset (log : Log κ α) : keys (live log) ⊆ keys log := by
  intro k member
  simp only [keys, live, List.mem_map, List.mem_filter] at member ⊢
  obtain ⟨e, ⟨inside, _⟩, rfl⟩ := member
  exact ⟨e, inside, rfl⟩

theorem keys_live_nodup {log : Log κ α} (distinct : (keys log).Nodup) :
    (keys (live log)).Nodup :=
  List.Nodup.sublist (List.Sublist.map _ List.filter_sublist) distinct

end TombstoneLog
