import TinyMq.Lib.TombstoneLog
import TinyMq.Storage.TomFile
import Mathlib.Data.List.Basic
import Mathlib.Logic.Function.Basic

/-!
A `ConcurrentLinearStorage` as its callers see it. A record is named by its
ordinal in the log. The worker swallows the exception of a failed operation:
an append that fails leaves its caller with the default record, and the file
stream stays failed, so that nothing is written or read any more.
-/
namespace TinyMqStore
open TombstoneLog TinyMqTom
variable {α : Type}

structure Store (α : Type) where
  log : Log UUID α := []
  index : UUID → Option Nat := fun _ => none
  good : Bool := true

/-- `none` is the default record, with the maximal tom id. -/
def Store.append (s : Store α) (uuid : UUID) (data : α) (fails : Bool) : Store α × Option Nat :=
  if s.good ∧ fails = false then
    ({ s with log := TombstoneLog.append s.log uuid data,
              index := Function.update s.index uuid (some s.log.length) }, some s.log.length)
  else ({ s with good := false }, none)

/-- The batch stops at its first failing item; `fails` tells by the ordinal. -/
def Store.appendBatch (fails : Nat → Bool) : Store α → List (UUID × α) → Store α
  | s, [] => s
  | s, (uuid, data) :: items =>
    match s.append uuid data (fails s.log.length) with
    | (s, none) => s
    | (s, some _) => s.appendBatch fails items

/-- The record's uuid names the index entry that goes with it. -/
def Store.remove (s : Store α) (location : Nat) (uuid : UUID) : Store α :=
  if s.good then
    { s with log := TombstoneLog.remove s.log location, index := Function.update s.index uuid none }
  else s

def Store.record (s : Store α) (uuid : UUID) : Option Nat := s.index uuid

def Store.data (s : Store α) (location : Nat) : Option α :=
  if s.good then s.log[location]?.map Entry.data else none

/-- The live records with their ordinals, in append order. -/
def liveRecords (log : Log UUID α) : List (Entry UUID α × Nat) :=
  log.zipIdx.filter fun x => !x.1.removed

def Store.scan (s : Store α) : List (Entry UUID α × Nat) := if s.good then liveRecords s.log else []

/-- A clean shutdown and a new start on the same directory. -/
def Store.reopen (s : Store α) : Store α :=
  { log := s.log,
    index := (liveRecords s.log).foldl (fun index x => Function.update index x.1.key (some x.2))
      fun _ => none }

def stored (items : List (UUID × α)) : Log UUID α :=
  items.map fun x => ⟨x.1,x.2,false⟩

def appends (fails : Nat → Bool) (s : Store α) (items : List (UUID × α)) :
    Store α :=
  items.foldl (fun s x => (s.append x.1 x.2 (fails s.log.length)).1) s

theorem appends_failed (fails : Nat → Bool) {s : Store α} (failed : s.good = false)
    (items : List (UUID × α)) : appends fails s items = s := by
  unfold appends
  induction items with
  | nil => rfl
  | cons x items ih =>
    have same : (s.append x.1 x.2 (fails s.log.length)).1 = s := by
      cases s
      simp_all [Store.append]
    rw [List.foldl_cons, same, ih]

theorem append_grown {s : Store α} {uuid : UUID} {data : α} {fails : Bool} {n : Nat}
    (accepted : (s.append uuid data fails).2 = some n) :
    (s.append uuid data fails).1.log = append s.log uuid data := by
  unfold Store.append at accepted ⊢
  split at accepted
  · rename_i ok
    rw [if_pos ok]
  · cases accepted

theorem appendBatch_refused {fails : Nat → Bool} {s : Store α} {uuid : UUID} {data : α}
    (refused : (s.append uuid data (fails s.log.length)).2 = none) (items : List (UUID × α)) :
    s.appendBatch fails ((uuid, data) :: items) = (s.append uuid data (fails s.log.length)).1 := by
  unfold Store.appendBatch
  split
  · rename_i s' here
    rw [here]
  · rename_i s' n here
    rw [here] at refused
    cases refused

theorem appendBatch_accepted {fails : Nat → Bool} {s : Store α} {uuid : UUID} {data : α} {n : Nat}
    (accepted : (s.append uuid data (fails s.log.length)).2 = some n) (items : List (UUID × α)) :
    s.appendBatch fails ((uuid, data) :: items) =
      (s.append uuid data (fails s.log.length)).1.appendBatch fails items := by
  rw [Store.appendBatch]
  split
  · rename_i s' here
    rw [here] at accepted
    cases accepted
  · rename_i s' n here
    rw [here]

theorem appendBatch_appends (fails : Nat → Bool) (s : Store α)
    (items : List (UUID × α)) : s.appendBatch fails items = appends fails s items := by
  induction items generalizing s with
  | nil => rfl
  | cons x items ih =>
    obtain ⟨uuid, data⟩ := x
    unfold Store.appendBatch appends
    rw [List.foldl_cons]
    by_cases ok : s.good ∧ fails s.log.length = false
    · simp only [Store.append, ok, and_self, if_true]
      exact ih _
    · simp only [Store.append, ok, if_false]
      exact (appends_failed fails rfl items).symm

theorem appends_stored {fails : Nat → Bool} {s : Store α} {items : List (UUID × α)}
    (good : s.good = true) (works : ∀ i < items.length, fails (s.log.length + i) = false) :
    (appends fails s items).log = s.log ++ stored items ∧ (appends fails s items).good = true := by
  induction items generalizing s with
  | nil => simp [appends, stored, good]
  | cons x items ih =>
    have first : fails s.log.length = false := works 0 (by simp)
    have later := ih (s := (s.append x.1 x.2 (fails s.log.length)).1)
      (by simp [Store.append, good, first])
      (by
        intro i inside
        have next := works (i + 1) (by simpa using inside)
        simp only [Store.append, good, first, and_self, if_true, TombstoneLog.append,
          List.length_append, List.length_singleton]
        rw [Nat.add_assoc, Nat.add_comm 1 i]
        exact next)
    unfold appends at later ⊢
    rw [List.foldl_cons]
    refine ⟨?_, later.2⟩
    rw [later.1]
    simp [Store.append, good, first, TombstoneLog.append, stored]

theorem appends_prefix (fails : Nat → Bool) (s : Store α) (items : List (UUID × α)) :
    ∃ k, (appends fails s items).log = s.log ++ stored (items.take k) := by
  induction items generalizing s with
  | nil => exact ⟨0, by simp [appends, stored]⟩
  | cons x items ih =>
    by_cases ok : s.good ∧ fails s.log.length = false
    · obtain ⟨k, rest⟩ := ih (s.append x.1 x.2 (fails s.log.length)).1
      have first : (s.append x.1 x.2 (fails s.log.length)).1.log = s.log ++ stored [x] := by
        simp [Store.append, ok, TombstoneLog.append, stored]
      refine ⟨k + 1, ?_⟩
      have next : appends fails s (x :: items) =
          appends fails (s.append x.1 x.2 (fails s.log.length)).1 items := rfl
      rw [next, rest, first, List.append_assoc]
      rfl
    · have first : (s.append x.1 x.2 (fails s.log.length)).1 = { s with good := false } := by
        simp [Store.append, ok]
      have next : appends fails s (x :: items) = appends fails { s with good := false } items := by
        rw [← first]
        rfl
      refine ⟨0, ?_⟩
      rw [next, appends_failed fails rfl]
      simp [stored]

theorem mem_appends {fails : Nat → Bool} {s : Store α} {items : List (UUID × α)} {e : Entry UUID α}
    (entry : e ∈ (appends fails s items).log) : e ∈ s.log ∨ (e.key, e.data) ∈ items := by
  obtain ⟨k, log⟩ := appends_prefix fails s items
  rw [log] at entry
  rcases List.mem_append.mp entry with old | new
  · exact Or.inl old
  · obtain ⟨i, inside, rfl⟩ := List.mem_map.mp new
    exact Or.inr (List.mem_of_mem_take inside)

def NoneFails (fails : Nat → Bool) (s : Store α) (items : List (UUID × α)) : Prop :=
  items = [] ∨ s.good = true ∧ ∀ i < items.length, fails (s.log.length + i) = false

theorem appends_stored_iff (fails : Nat → Bool) (s : Store α)
    (items : List (UUID × α)) :
    (appends fails s items).log = s.log ++ stored items ↔ NoneFails fails s items := by
  constructor
  · intro all
    induction items generalizing s with
    | nil => exact Or.inl rfl
    | cons x items ih =>
      by_cases ok : s.good ∧ fails s.log.length = false
      · have first : (s.append x.1 x.2 (fails s.log.length)).1.log = s.log ++ stored [x] := by
          simp [Store.append, ok, TombstoneLog.append, stored]
        have rest := ih (s.append x.1 x.2 (fails s.log.length)).1
          (by
            rw [first, List.append_assoc]
            exact all)
        refine Or.inr ⟨ok.1, ?_⟩
        intro i inside
        cases i with
        | zero => exact ok.2
        | succ i =>
          rcases rest with empty | ⟨_, works⟩
          · simp [empty] at inside
          · have later := works i (by simpa using inside)
            rw [first, List.length_append] at later
            simp only [stored, List.map_cons, List.map_nil, List.length_singleton] at later
            rw [Nat.add_comm i 1, ← Nat.add_assoc]
            exact later
      · have stuck : appends fails s (x :: items) = { s with good := false } := by
          have first : (s.append x.1 x.2 (fails s.log.length)).1 = { s with good := false } := by
            simp [Store.append, ok]
          unfold appends
          rw [List.foldl_cons, first]
          exact appends_failed fails rfl items
        rw [stuck] at all
        have lengths := congrArg List.length all
        simp [stored] at lengths
  · intro none_
    rcases none_ with empty | ⟨good, works⟩
    · simp [empty, appends, stored]
    · exact (appends_stored good works).1

/-- The uuid inside every record is its key, and the index points at records of the key. -/
structure Sound (uuidOf : α → UUID) (s : Store α) : Prop where
  named : ∀ e ∈ s.log, uuidOf e.data = e.key
  indexed : ∀ u i, s.index u = some i → ∃ e, s.log[i]? = some e ∧ e.key = u

section Soundness
variable {uuidOf : α → UUID} {s : Store α}

theorem sound_empty (uuidOf : α → UUID) : Sound uuidOf ({} : Store α) := ⟨by simp, by simp⟩

theorem Sound.append (sound : Sound uuidOf s) {uuid : UUID} {data : α} (own : uuidOf data = uuid)
    (fails : Bool) : Sound uuidOf (s.append uuid data fails).1 := by
  unfold Store.append
  split
  · constructor
    · intro e member
      rcases List.mem_append.mp member with old | new
      · exact sound.named e old
      · rw [List.mem_singleton.mp new]
        exact own
    · intro u i found
      by_cases here : u = uuid
      · subst here
        simp only [Function.update_self, Option.some.injEq] at found
        rw [← found]
        exact ⟨⟨u,data,false⟩, by simp [TombstoneLog.append], rfl⟩
      · simp only [Function.update_of_ne here] at found
        obtain ⟨e, at_, key⟩ := sound.indexed u i found
        have inside : i < s.log.length := (List.getElem?_eq_some_iff.mp at_).1
        exact ⟨e, by simp [TombstoneLog.append, List.getElem?_append_left inside, at_], key⟩
  · exact ⟨sound.named, sound.indexed⟩

theorem Sound.remove (sound : Sound uuidOf s) (location : Nat) (uuid : UUID) :
    Sound uuidOf (s.remove location uuid) := by
  unfold Store.remove
  split
  · constructor
    · intro e member
      obtain ⟨old, inside, key, data, _⟩ := mem_remove member
      rw [key, data]
      exact sound.named old inside
    · intro u i found
      by_cases here : u = uuid
      · simp [here] at found
      · simp only [Function.update_of_ne here] at found
        obtain ⟨e, at_, key⟩ := sound.indexed u i found
        simp only [TombstoneLog.remove, List.getElem?_modify, at_]
        exact ⟨_, rfl, by split <;> exact key⟩
  · exact sound

theorem Sound.appendBatch (sound : Sound uuidOf s) {items : List (UUID × α)}
    (own : ∀ x ∈ items, uuidOf x.2 = x.1) (fails : Nat → Bool) :
    Sound uuidOf (s.appendBatch fails items) := by
  rw [appendBatch_appends]
  unfold appends
  induction items generalizing s with
  | nil => exact sound
  | cons x items ih =>
    rw [List.foldl_cons]
    exact ih (sound.append (own x (by simp)) _) fun y inside => own y (List.mem_cons_of_mem x inside)

theorem mem_liveRecords {log : Log UUID α} {x : Entry UUID α × Nat} (member : x ∈ liveRecords log) :
    log[x.2]? = some x.1 ∧ x.1.removed = false := by
  simp only [liveRecords, List.mem_filter, Bool.not_eq_true'] at member
  have placed := List.mem_zipIdx_iff_getElem?.mp member.1
  exact ⟨placed, member.2⟩

theorem mem_liveRecords_iff {log : Log UUID α} {x : Entry UUID α × Nat} :
    x ∈ liveRecords log ↔ log[x.2]? = some x.1 ∧ x.1.removed = false := by
  refine ⟨mem_liveRecords, ?_⟩
  rintro ⟨placed, live⟩
  simp only [liveRecords, List.mem_filter, Bool.not_eq_true']
  exact ⟨List.mem_zipIdx_iff_getElem?.mpr placed, live⟩

theorem liveRecords_distinct {log : Log UUID α} (distinct : (keys log).Nodup) :
    ((liveRecords log).map fun x => x.1.key).Nodup := by
  have order : ((liveRecords log).map fun x => x.1.key).Sublist
      ((log.zipIdx.map Prod.fst).map Entry.key) := by
    rw [List.map_map]
    exact List.filter_sublist.map _
  rw [List.zipIdx_map_fst] at order
  exact order.nodup distinct

theorem Sound.reopen (sound : Sound uuidOf s) : Sound uuidOf s.reopen := by
  refine ⟨sound.named, ?_⟩
  have loop : ∀ (l : List (Entry UUID α × Nat)) (index : UUID → Option Nat),
      (∀ x ∈ l, s.log[x.2]? = some x.1) →
      (∀ u i, index u = some i → ∃ e, s.log[i]? = some e ∧ e.key = u) →
      ∀ (u : UUID) (i : Nat),
        l.foldl (fun (index : UUID → Option Nat) x => Function.update index x.1.key (some x.2))
          index u = some i → ∃ e, s.log[i]? = some e ∧ e.key = u := by
    intro l
    induction l with
    | nil => exact fun index _ good => good
    | cons x l ih =>
      intro index placed good
      refine ih _ (fun y inside => placed y (List.mem_cons_of_mem x inside)) ?_
      intro u i found
      by_cases here : u = x.1.key
      · simp only [here, Function.update_self, Option.some.injEq] at found
        rw [← found, here]
        exact ⟨x.1, placed x (by simp), rfl⟩
      · simp only [Function.update_of_ne here] at found
        exact good u i found
  exact loop (liveRecords s.log) (fun _ => none) (fun x inside => (mem_liveRecords inside).1)
    (by simp)

end Soundness

end TinyMqStore
