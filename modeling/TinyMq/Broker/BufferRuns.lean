import TinyMq.Broker.TransactionBuffer
import TinyMq.Lib.Machines

/-!
Runs of one transaction buffer. What a commit owes is the list of the messages
added under its transaction since it began, each with the data it was added
with, patched since. The payloads are kept in one map by message id, so the
buffer hands over what it owes as long as no id is added while it is buffered.
-/
namespace TinyMqBufferRuns
open DelimitedText AssocLists Machines TinyMqTom TinyMqTransactionBuffer
variable {α : Type}

inductive Call (α : Type) where
  | addMessage (time : Stamp) (transactionId : Text) (messageId : UUID) (data : α)
  | patchDeliveryTime (messageId : UUID) (patch : α → α)
  | commitTransaction (time : Stamp) (transactionId : Text)
  | rollbackTransaction (time : Stamp) (transactionId : Text)

def next (tb : TransactionBuffer α) : Call α → TransactionBuffer α
  | .addMessage time t id data => tb.addMessage time t id data
  | .patchDeliveryTime id patch => tb.patchDeliveryTime id patch
  | .commitTransaction time t => (tb.commitTransaction time t).1
  | .rollbackTransaction time t => tb.rollbackTransaction time t

def opened (log : Text) (time : Stamp) : TransactionBuffer α :=
  (loadTransactionLog log).recover time

def run (tb : TransactionBuffer α) (calls : List (Call α)) : TransactionBuffer α :=
  calls.foldl next tb

def handed (tb : TransactionBuffer α) (time : Stamp) (t : Text) : List (UUID × α) :=
  (tb.commitTransaction time t).2

def patched (id : UUID) (patch : α → α) (p : UUID × α) : UUID × α :=
  if p.1 = id then (p.1, patch p.2) else p

/-- What transaction `t` owes after one more call, as the buffer's users see it. -/
def owes (t : Text) (owed : List (UUID × α)) : Call α → List (UUID × α)
  | .addMessage _ u id data => if u = t then owed ++ [(id, data)] else owed
  | .patchDeliveryTime id patch => owed.map (patched id patch)
  | .commitTransaction _ u => if u = t then [] else owed
  | .rollbackTransaction _ u => if u = t then [] else owed

def Call.transaction : Call α → Option Text
  | .addMessage _ t _ _ => some t
  | .patchDeliveryTime _ _ => none
  | .commitTransaction _ t => some t
  | .rollbackTransaction _ t => some t

/-- Every transaction is handed over as it was filled. -/
def HandsOver (tb : TransactionBuffer α) (calls : List (Call α)) : Prop :=
  ∀ time t, handed (run tb calls) time t = calls.foldl (owes t) []

/-- A call that is made on another transaction makes no difference to a later commit. -/
def Undisturbed (tb : TransactionBuffer α) (before : List (Call α)) (call : Call α)
    (after : List (Call α)) : Prop :=
  ∀ time t u, call.transaction = some u → u ≠ t →
    handed (run tb (before ++ call :: after)) time t = handed (run tb (before ++ after)) time t

/-- A message is added while no open transaction holds its id. -/
def Unbuffered (tb : TransactionBuffer α) : Call α → Prop
  | .addMessage _ _ id _ => tb.bufferedData id = none
  | _ => True

/-- The buffer holds what every transaction owes, and each id once. -/
structure Ledger (tb : TransactionBuffer α) (owed : Text → List (UUID × α)) : Prop where
  ids : ∀ t, (get tb.transactionMessages t).getD [] = (owed t).map (·.1)
  data : ∀ t, ∀ p ∈ owed t, tb.bufferedData p.1 = some p.2
  distinct : ∀ t, ((owed t).map (·.1)).Nodup
  apart : ∀ t u, t ≠ u → ∀ p ∈ owed t, ∀ q ∈ owed u, p.1 ≠ q.1

theorem addMessage_ids (tb : TransactionBuffer α) (time : Stamp) (t u : Text) (id : UUID) (data : α) :
    (get (tb.addMessage time t id data).transactionMessages u).getD [] =
      (get tb.transactionMessages u).getD [] ++ if t = u then [id] else [] := by
  cases found : get tb.transactionMessages t with
  | none =>
    by_cases same : t = u
    · subst same
      simp [TransactionBuffer.addMessage, TransactionBuffer.begin, TransactionBuffer.logOperation,
        found]
    · simp [TransactionBuffer.addMessage, TransactionBuffer.begin, TransactionBuffer.logOperation,
        found, same, get_put_other _ _ (Ne.symm same)]
  | some ids =>
    by_cases same : t = u
    · subst same
      simp [TransactionBuffer.addMessage, TransactionBuffer.begin, TransactionBuffer.logOperation,
        found]
    · simp [TransactionBuffer.addMessage, TransactionBuffer.begin, TransactionBuffer.logOperation,
        found, same, get_put_other _ _ (Ne.symm same)]

theorem addMessage_data (tb : TransactionBuffer α) (time : Stamp) (t : Text) (id : UUID) (data : α) :
    (tb.addMessage time t id data).bufferedData = Function.update tb.bufferedData id (some data) := by
  cases found : get tb.transactionMessages t <;>
    simp [TransactionBuffer.addMessage, TransactionBuffer.begin, TransactionBuffer.logOperation, found]

theorem rollback_ids (tb : TransactionBuffer α) (time : Stamp) (t u : Text) :
    (get (tb.rollbackTransaction time t).transactionMessages u).getD [] =
      if t = u then [] else (get tb.transactionMessages u).getD [] := by
  cases found : get tb.transactionMessages t with
  | none =>
    by_cases same : t = u
    · subst same
      simp [TransactionBuffer.rollbackTransaction, found]
    · simp [TransactionBuffer.rollbackTransaction, found, same]
  | some ids =>
    by_cases same : t = u
    · subst same
      simp [TransactionBuffer.rollbackTransaction, TransactionBuffer.discard,
        TransactionBuffer.logOperation, found]
    · simp [TransactionBuffer.rollbackTransaction, TransactionBuffer.discard,
        TransactionBuffer.logOperation, found, same, get_erase_other _ (Ne.symm same)]

theorem rollback_data (tb : TransactionBuffer α) (time : Stamp) (t : Text) (u : UUID) :
    (tb.rollbackTransaction time t).bufferedData u =
      if u ∈ (get tb.transactionMessages t).getD [] then none else tb.bufferedData u := by
  cases found : get tb.transactionMessages t with
  | none => simp [TransactionBuffer.rollbackTransaction, found]
  | some ids =>
    simp [TransactionBuffer.rollbackTransaction, TransactionBuffer.discard,
      TransactionBuffer.logOperation, found, forget_data]

section Ledger
variable {tb : TransactionBuffer α} {owed : Text → List (UUID × α)}

theorem ledger_taken (ledger : Ledger tb owed) (t : Text) :
    tb.takeBatch ((owed t).map (·.1)) = (tb.forget ((owed t).map (·.1)), owed t) :=
  takeBatch_forget (ledger.data t) (ledger.distinct t)

theorem ledger_handed (ledger : Ledger tb owed) (time : Stamp) (t : Text) :
    handed tb time t = owed t := by
  have ids := ledger.ids t
  cases found : get tb.transactionMessages t with
  | none =>
    rw [found] at ids
    have empty : owed t = [] := by simpa using ids.symm
    simp [handed, TransactionBuffer.commitTransaction, found, empty]
  | some names =>
    rw [found, Option.getD_some] at ids
    rw [handed, TransactionBuffer.commitTransaction, found]
    simp only [ids, ledger_taken ledger t]

theorem ledger_committed (ledger : Ledger tb owed) (time : Stamp) (t : Text) :
    (tb.commitTransaction time t).1.transactionMessages =
        (tb.rollbackTransaction time t).transactionMessages ∧
      (tb.commitTransaction time t).1.bufferedData =
        (tb.rollbackTransaction time t).bufferedData := by
  have ids := ledger.ids t
  cases found : get tb.transactionMessages t with
  | none => simp [TransactionBuffer.commitTransaction, TransactionBuffer.rollbackTransaction, found]
  | some names =>
    rw [found, Option.getD_some] at ids
    simp [TransactionBuffer.commitTransaction, TransactionBuffer.rollbackTransaction,
      TransactionBuffer.discard, TransactionBuffer.logOperation, found, ids, ledger_taken ledger t]

theorem ledger_add (ledger : Ledger tb owed) (time : Stamp) (t : Text) {id : UUID} (data : α)
    (free : tb.bufferedData id = none) :
    Ledger (tb.addMessage time t id data)
      (fun u => owes u (owed u) (.addMessage time t id data)) := by
  have new : ∀ u, ∀ p ∈ owed u, p.1 ≠ id := by
    intro u p member same
    have held := ledger.data u p member
    rw [same, free] at held
    cases held
  have held : ∀ u, owes u (owed u) (.addMessage time t id data) =
      owed u ++ if t = u then [(id, data)] else [] := by
    intro u
    by_cases same : t = u <;> simp [owes, same]
  refine
    { ids := ?ids
      data := ?data
      distinct := ?distinct
      apart := ?apart }
  case ids =>
    intro u
    rw [addMessage_ids, ledger.ids u, held]
    by_cases same : t = u <;> simp [same]
  case data =>
    intro u p member
    rw [addMessage_data]
    rw [held, List.mem_append] at member
    rcases member with old | last
    · rw [Function.update_of_ne (new u p old)]
      exact ledger.data u p old
    · by_cases same : t = u
      · rw [if_pos same, List.mem_singleton] at last
        simp [last]
      · simp [same] at last
  case distinct =>
    intro u
    rw [held, List.map_append, List.nodup_append]
    refine ⟨ledger.distinct u, by by_cases same : t = u <;> simp [same], ?_⟩
    intro v member w last
    obtain ⟨p, inside, rfl⟩ := List.mem_map.mp member
    by_cases same : t = u
    · simp only [same, if_true, List.map_cons, List.map_nil, List.mem_singleton] at last
      rw [last]
      exact new u p inside
    · simp [same] at last
  case apart =>
    intro u v other p first q second
    rw [held, List.mem_append] at first second
    -- the new id is none of the old ones, and it goes to one transaction only
    rcases first with first | first <;> rcases second with second | second
    · exact ledger.apart u v other p first q second
    · by_cases same : t = v
      · rw [if_pos same, List.mem_singleton] at second
        rw [second]
        exact new u p first
      · simp [same] at second
    · by_cases same : t = u
      · rw [if_pos same, List.mem_singleton] at first
        rw [first]
        exact (new v q second).symm
      · simp [same] at first
    · by_cases same : t = u
      · have differs : t ≠ v := by
          rw [same]
          exact other
        simp [differs] at second
      · simp [same] at first

theorem patched_id (id : UUID) (patch : α → α) (p : UUID × α) : (patched id patch p).1 = p.1 := by
  unfold patched
  split <;> rfl

theorem ledger_patch (ledger : Ledger tb owed) (id : UUID) (patch : α → α) :
    Ledger (tb.patchDeliveryTime id patch)
      (fun t => owes t (owed t) (.patchDeliveryTime id patch)) := by
  have names : ∀ t, ((owed t).map (patched id patch)).map (·.1) = (owed t).map (·.1) := by
    intro t
    simp [Function.comp_def, patched_id]
  have kept : (tb.patchDeliveryTime id patch).transactionMessages = tb.transactionMessages := by
    unfold TransactionBuffer.patchDeliveryTime
    split <;> rfl
  refine
    { ids := ?ids
      data := ?data
      distinct := ?distinct
      apart := ?apart }
  case ids =>
    intro t
    rw [kept, ledger.ids t]
    exact (names t).symm
  case data =>
    intro t q member
    obtain ⟨p, inside, rfl⟩ := List.mem_map.mp member
    have held := ledger.data t p inside
    by_cases same : p.1 = id
    · subst same
      simp [TransactionBuffer.patchDeliveryTime, held, patched]
    · unfold TransactionBuffer.patchDeliveryTime
      cases found : tb.bufferedData id with
      | none => simpa [patched, same] using held
      | some data => simpa [patched, same, Function.update_of_ne] using held
  case distinct =>
    intro t
    show (((owed t).map (patched id patch)).map (·.1)).Nodup
    rw [names]
    exact ledger.distinct t
  case apart =>
    intro t u other p first q second
    obtain ⟨p, owner, rfl⟩ := List.mem_map.mp first
    obtain ⟨q, rival, rfl⟩ := List.mem_map.mp second
    rw [patched_id, patched_id]
    exact ledger.apart t u other p owner q rival

theorem ledger_end {tb' : TransactionBuffer α} (ledger : Ledger tb owed) (time : Stamp) (t : Text)
    (messages : tb'.transactionMessages = (tb.rollbackTransaction time t).transactionMessages)
    (data : tb'.bufferedData = (tb.rollbackTransaction time t).bufferedData) :
    Ledger tb' (fun u => if t = u then [] else owed u) := by
  refine
    { ids := ?ids
      data := ?data
      distinct := ?distinct
      apart := ?apart }
  case ids =>
    intro u
    rw [messages, rollback_ids, ledger.ids u]
    by_cases same : t = u <;> simp [same]
  case data =>
    intro u p member
    by_cases same : t = u
    · simp [same] at member
    · rw [if_neg same] at member
      rw [data, rollback_data, ledger.ids t, if_neg]
      · exact ledger.data u p member
      · intro gone
        obtain ⟨q, inside, equal⟩ := List.mem_map.mp gone
        exact ledger.apart t u same q inside p member equal
  case distinct =>
    intro u
    by_cases same : t = u
    · simp [same]
    · simpa [same] using ledger.distinct u
  case apart =>
    intro u v other p first q second
    by_cases gone : t = u
    · simp [gone] at first
    · by_cases lost : t = v
      · simp [lost] at second
      · rw [if_neg gone] at first
        rw [if_neg lost] at second
        exact ledger.apart u v other p first q second

theorem ledger_next (ledger : Ledger tb owed) (call : Call α) (free : Unbuffered tb call) :
    Ledger (next tb call) (fun t => owes t (owed t) call) := by
  cases call with
  | addMessage time t id data => exact ledger_add ledger time t data free
  | patchDeliveryTime id patch => exact ledger_patch ledger id patch
  | commitTransaction time t =>
    obtain ⟨messages, data⟩ := ledger_committed ledger time t
    exact ledger_end ledger time t messages data
  | rollbackTransaction time t => exact ledger_end ledger time t rfl rfl

theorem ledger_run {calls : List (Call α)} (ledger : Ledger tb owed)
    (free : Meets next Unbuffered tb calls) :
    Ledger (run tb calls) (fun t => calls.foldl (owes t) (owed t)) := by
  induction calls generalizing tb owed with
  | nil => exact ledger
  | cons call calls ih => exact ih (ledger_next ledger call free.1) free.2

end Ledger

theorem discards_messages (tb : TransactionBuffer α) (time : Stamp) (ts : List Text) (t : Text) :
    get (ts.foldl (fun tb id => tb.discard time id) tb).transactionMessages t =
      if t ∈ ts then none else get tb.transactionMessages t := by
  induction ts generalizing tb with
  | nil => rfl
  | cons u ts ih =>
    rw [List.foldl_cons, ih]
    have kept : (tb.discard time u).transactionMessages = erase tb.transactionMessages u := by
      simp [TransactionBuffer.discard, TransactionBuffer.logOperation]
    rw [kept]
    by_cases same : t = u
    · simp [same]
    · by_cases inside : t ∈ ts
      · simp [inside]
      · simp [same, inside, get_erase_other _ same]

theorem opened_ledger (log : Text) (time : Stamp) :
    Ledger (opened (α := α) log time) (fun _ => []) := by
  refine ⟨?_, by simp, by simp, by simp⟩
  intro t
  rw [opened, TransactionBuffer.recover, discards_messages]
  split
  · rfl
  · next absent =>
    cases found : get (loadTransactionLog log : TransactionBuffer α).transactionMessages t with
    | none => rfl
    | some ids => exact absurd (List.mem_map.mpr ⟨_, get_mem found, rfl⟩) absent

theorem owes_other (t : Text) (owed : List (UUID × α)) {call : Call α} {u : Text}
    (made : call.transaction = some u) (other : u ≠ t) : owes t owed call = owed := by
  cases call <;> simp_all [Call.transaction, owes]

/- From an opened buffer on, as long as no message is added while its id is buffered. -/
theorem buffer_exact (log : Text) (start : Stamp) (calls : List (Call α))
    (free : Meets next Unbuffered (opened log start) calls) :
    HandsOver (opened log start) calls ∧
      ∀ before call after, calls = before ++ call :: after →
        Meets next Unbuffered (opened log start) (before ++ after) →
          Undisturbed (opened log start) before call after := by
  have exact_ : ∀ calls, Meets next Unbuffered (opened (α := α) log start) calls →
      HandsOver (opened log start) calls := by
    intro calls free time t
    exact ledger_handed (ledger_run (opened_ledger log start) free) time t
  refine ⟨exact_ calls free, ?_⟩
  intro before call after split without time t u made other
  subst split
  rw [exact_ _ free time t, exact_ _ without time t]
  simp only [List.foldl_append, List.foldl_cons, owes_other t _ made other]

def dawn : Stamp := ⟨['6'],by decide,by decide⟩

def twoTransactions : List (Call Nat) :=
  [.addMessage dawn ['t'] 1 7, .addMessage dawn ['u'] 2 9, .commitTransaction dawn ['t']]

theorem buffer_exact_two :
    HandsOver (opened [] dawn) twoTransactions ∧
      Undisturbed (opened [] dawn)
        [.addMessage dawn ['t'] 1 (7 : Nat), .addMessage dawn ['u'] 2 9]
        (.commitTransaction dawn ['t']) [] := by
  have free : Meets next Unbuffered (opened [] dawn) twoTransactions := ⟨rfl, rfl, trivial, trivial⟩
  obtain ⟨hands, others⟩ := buffer_exact [] dawn twoTransactions free
  exact ⟨hands, others _ _ _ rfl ⟨rfl, rfl, trivial⟩⟩

/- The same message is sent in two transactions: the second add replaces the payload
   of the first, and the commit of one of them takes it away from the other. -/
theorem shared_id_lost :
    ¬ HandsOver (opened [] dawn)
        [.addMessage dawn ['t'] 1 (7 : Nat), .addMessage dawn ['u'] 1 9] ∧
      ¬ Undisturbed (opened [] dawn)
        [.addMessage dawn ['t'] 1 (7 : Nat), .addMessage dawn ['u'] 1 9]
        (.commitTransaction dawn ['u']) [] := by
  constructor
  · intro hands
    exact absurd (hands dawn ['t']) (by decide)
  · intro same
    exact absurd (same dawn ['t'] ['u'] rfl (by decide)) (by decide)

end TinyMqBufferRuns
