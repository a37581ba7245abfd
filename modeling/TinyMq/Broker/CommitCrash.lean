import TinyMq.Broker.TransactionBuffer
import TinyMq.Storage.Refinement
import Mathlib.Data.List.Perm.Subperm

/-!
A crash inside `TransactionBuffer::commitTransaction`. The call is a sequence of
steps: the COMMIT line, the hand-over of the batch to the storage worker, one
append after the other in the worker, and the return. Each completed write is
durable, so a crash leaves the log text and the tom files of the last step.
-/
namespace TinyMqCommitCrash
open ByteStrings DelimitedText AssocLists TombstoneLog
open TinyMqTom TinyMqStorage TinyMqLogImage TinyMqRefinement TinyMqTransactionBuffer

inductive Phase where
  | called
  | logged (batch : List (UUID × Bytes))
  | handed (rest : List (UUID × Bytes))
  | returned

structure CommitState where
  buffer : TransactionBuffer Bytes
  storage : Storage
  phase : Phase

def commitStep (time : Stamp) (transactionId : Text) (c : CommitState) : CommitState :=
  match c.phase with
  | .called =>
    match get c.buffer.transactionMessages transactionId with
    | none => { c with phase := .returned }
    | some _ =>
      let (tb, batch) := c.buffer.commitTransaction time transactionId
      { c with buffer := tb, phase := .logged batch }
  | .logged batch => { c with phase := if batch.isEmpty then .returned else .handed batch }
  | .handed [] => { c with phase := .returned }
  | .handed ((uuid, data) :: rest) =>
    match c.storage.append uuid data none with
    | (s, .ok _) => { c with storage := s, phase := .handed rest }
    | (s, .error _) => { c with storage := s, phase := .returned }
  | .returned => c

def crashAfter (time : Stamp) (transactionId : Text) (tb : TransactionBuffer Bytes) (s : Storage) :
    Nat → CommitState
  | 0 => ⟨tb,s,.called⟩
  | n + 1 => commitStep time transactionId (crashAfter time transactionId tb s n)

def restart (time : Stamp) (c : CommitState) : Except StorageError (Storage × TransactionBuffer Bytes) :=
  match c.storage.reopen with
  | .error e => .error e
  | .ok s => .ok (s, (loadTransactionLog c.buffer.transactionLog).recover time)

def liveUuids (s : Storage) : List UUID :=
  match s.scan.2 with
  | .error _ => []
  | .ok records => records.map fun x => x.1.header.uuid

/-- After the restart all records of the transaction are live or none is, and all
    of them are when its COMMIT line is in the log. -/
def CrashAtomic (time : Stamp) (transactionId : Text) (ids : List UUID) (c : CommitState) : Prop :=
  ∃ s tb, restart time c = .ok (s, tb) ∧
    ((∀ u ∈ ids, u ∈ liveUuids s) ∨ ∀ u ∈ ids, u ∉ liveUuids s) ∧
    (Committed c.buffer.transactionLog transactionId → ∀ u ∈ ids, u ∈ liveUuids s)

abbrev Batch := List (UUID × Payload)

def ids (batch : Batch) : List UUID := batch.map (·.1)

def items (batch : Batch) : List (UUID × Bytes) := batch.map fun p => (p.1, p.2.bytes)

def entries (batch : Batch) : RecordLog := batch.map fun p => ⟨p.1,p.2,false⟩

/-- The buffer holds an active transaction with these messages. -/
structure Staged (tb : TransactionBuffer Bytes) (transactionId : Text) (batch : Batch) : Prop where
  whole : Whole tb.transactionLog
  plain : Plain '|' transactionId
  uncommitted : ¬ Committed tb.transactionLog transactionId
  active : get tb.transactionMessages transactionId = some (ids batch)
  data : ∀ p ∈ batch, tb.bufferedData p.1 = some p.2.bytes
  distinct : (ids batch).Nodup
  named : 0 ∉ ids batch

@[simp] theorem keys_entries (batch : Batch) : keys (entries batch) = ids batch := by
  simp [keys, entries, ids]

@[simp] theorem live_entries (batch : Batch) : live (entries batch) = entries batch := by
  unfold live
  apply List.filter_eq_self.mpr
  intro e member
  obtain ⟨p, _, rfl⟩ := List.mem_map.mp member
  rfl

theorem takeBatch_items {tb : TransactionBuffer Bytes} {batch : Batch}
    (data : ∀ p ∈ batch, tb.bufferedData p.1 = some p.2.bytes) (distinct : (ids batch).Nodup) :
    tb.takeBatch (ids batch) = (tb.forget (ids batch), items batch) := by
  have named : ids batch = (items batch).map (·.1) := by simp [ids, items]
  rw [named] at distinct ⊢
  apply takeBatch_forget ?_ distinct
  intro q member
  obtain ⟨p, inside, rfl⟩ := List.mem_map.mp member
  exact data p inside

theorem commit_logged {tb : TransactionBuffer Bytes} {t : Text} {batch : Batch}
    (staged : Staged tb t batch) (time : Stamp) :
    ∃ tb', tb.commitTransaction time t = (tb', items batch) ∧ Committed tb'.transactionLog t := by
  have taken := takeBatch_items staged.data staged.distinct
  refine ⟨_, by rw [TransactionBuffer.commitTransaction, staged.active]; simp only [taken]; rfl, ?_⟩
  have written := committed_snoc staged.whole time .COMMIT (u := t) staged.plain 0
  simp only [TransactionBuffer.logOperation, forget_log]
  exact written.mpr (Or.inr ⟨rfl, rfl⟩)

theorem append_batch_item {s : Storage} {log : RecordLog} {batch : Batch} {p : UUID × Payload}
    (rep : Represents s (log ++ entries batch)) (new : p.1 ∉ keys log) (other : p.1 ∉ ids batch)
    (real : p.1 ≠ 0) :
    ∃ s' r, s.append p.1 p.2.bytes none = (s', .ok r) ∧
      Represents s' (log ++ entries (batch ++ [p])) := by
  have absent : p.1 ∉ keys (log ++ entries batch) := by
    have split : keys (log ++ entries batch) = keys log ++ keys (entries batch) := by simp [keys]
    rw [split, keys_entries, List.mem_append]
    rintro (old | here)
    · exact new old
    · exact other here
  obtain ⟨s', done, rep'⟩ := append_represents rep p.2 absent real
  refine ⟨s', _, done, ?_⟩
  simpa [append, entries] using rep'

/-- Where the call stands after `n` steps. -/
structure Progress (n : Nat) (tb : TransactionBuffer Bytes) (t : Text) (log : RecordLog) (batch : Batch)
    (c : CommitState) : Prop where
  stored : Represents c.storage (log ++ entries (batch.take (n - 2)))
  logged : Committed c.buffer.transactionLog t ↔ 1 ≤ n
  called : n = 0 → c.phase = .called ∧ c.buffer = tb
  line : n = 1 → c.phase = .logged (items batch)
  worker : 2 ≤ n →
    c.phase = .handed ((items batch).drop (n - 2)) ∧ n - 2 ≤ batch.length ∨
    c.phase = .returned ∧ batch.length ≤ n - 2

section Progress
variable {tb : TransactionBuffer Bytes} {s : Storage} {t : Text} {log : RecordLog} {batch : Batch}

theorem progress_start (staged : Staged tb t batch) (rep : Represents s log) :
    Progress 0 tb t log batch ⟨tb,s,.called⟩ where
  stored := by simpa [entries] using rep
  logged := by
    constructor
    · intro committed
      exact absurd committed staged.uncommitted
    · intro positive
      omega
  called := fun _ => ⟨rfl, rfl⟩
  line := by intro one; omega
  worker := by intro two; omega

theorem progress_line (staged : Staged tb t batch) (time : Stamp) {c : CommitState}
    (here : Progress 0 tb t log batch c) : Progress 1 tb t log batch (commitStep time t c) := by
  obtain ⟨phase, buffer⟩ := here.called rfl
  obtain ⟨tb', committed, line⟩ := commit_logged staged time
  have active := staged.active
  rw [← buffer] at committed active
  have next : commitStep time t c = { c with buffer := tb', phase := .logged (items batch) } := by
    simp only [commitStep, phase, active, committed]
  rw [next]
  exact ⟨here.stored, by simpa using line, by omega, fun _ => rfl, by omega⟩

theorem progress_handed (time : Stamp) {c : CommitState} (here : Progress 1 tb t log batch c) :
    Progress 2 tb t log batch (commitStep time t c) := by
  have phase := here.line rfl
  have next : commitStep time t c =
      { c with phase := if (items batch).isEmpty then .returned else .handed (items batch) } := by
    simp only [commitStep, phase]
  have line : Committed c.buffer.transactionLog t := here.logged.mpr (by omega)
  rw [next]
  refine ⟨here.stored, by simpa using line, by omega, by omega, ?_⟩
  intro _
  cases batch with
  | nil => exact Or.inr ⟨rfl, by simp⟩
  | cons p rest => exact Or.inl ⟨rfl, by simp⟩

theorem progress_item (staged : Staged tb t batch) (apart : ∀ u ∈ ids batch, u ∉ keys log)
    (time : Stamp) {n : Nat} (more : n < batch.length) {c : CommitState}
    (here : Progress (n + 2) tb t log batch c) (phase : c.phase = .handed ((items batch).drop n)) :
    Progress (n + 3) tb t log batch (commitStep time t c) := by
  have stored := here.stored
  have line : Committed c.buffer.transactionLog t := here.logged.mpr (by omega)
  have item : (items batch).drop n =
      (batch[n].1, batch[n].2.bytes) :: (items batch).drop (n + 1) := by
    have length : n < (items batch).length := by simpa [items] using more
    rw [List.drop_eq_getElem_cons length]
    simp [items]
  have member : batch[n].1 ∈ ids batch := List.mem_map_of_mem (List.getElem_mem more)
  have other : batch[n].1 ∉ ids (batch.take n) := by
    have whole : ids batch = ids (batch.take n) ++ batch[n].1 :: ids (batch.drop (n + 1)) := by
      rw [ids, ids, ids, ← List.map_cons, ← List.drop_eq_getElem_cons more,
        ← List.map_append, List.take_append_drop]
    have distinct := staged.distinct
    rw [whole, List.nodup_append] at distinct
    intro inside
    exact distinct.2.2 _ inside _ (by simp) rfl
  have real : batch[n].1 ≠ 0 := by
    intro zero
    rw [zero] at member
    exact staged.named member
  rw [Nat.add_sub_cancel] at stored
  obtain ⟨s', r, appended, rep⟩ := append_batch_item stored (apart _ member) other real
  rw [List.take_append_getElem more] at rep
  have next : commitStep time t c =
      { c with storage := s', phase := .handed ((items batch).drop (n + 1)) } := by
    simp only [commitStep, phase, item, appended]
  rw [next]
  refine ⟨by simpa using rep, by simpa using line, by omega, by omega, ?_⟩
  intro _
  exact Or.inl ⟨by simp, by omega⟩

theorem progress_done {n : Nat} (done : batch.length ≤ n) {c c' : CommitState}
    (here : Progress (n + 2) tb t log batch c) (storage : c'.storage = c.storage)
    (buffer : c'.buffer = c.buffer) (phase : c'.phase = .returned) :
    Progress (n + 3) tb t log batch c' := by
  have stored := here.stored
  have line : Committed c.buffer.transactionLog t := here.logged.mpr (by omega)
  have same : batch.take (n + 3 - 2) = batch.take (n + 2 - 2) := by
    rw [List.take_of_length_le (by omega), List.take_of_length_le (by omega)]
  refine ⟨?_, ?_, by omega, by omega, ?_⟩
  · rw [storage, same]
    exact stored
  · rw [buffer]
    simpa using line
  · intro _
    exact Or.inr ⟨phase, by omega⟩

theorem progress_step (staged : Staged tb t batch) (apart : ∀ u ∈ ids batch, u ∉ keys log)
    (time : Stamp) {n : Nat} {c : CommitState} (here : Progress n tb t log batch c) :
    Progress (n + 1) tb t log batch (commitStep time t c) := by
  rcases n with _ | _ | n
  · exact progress_line staged time here
  · exact progress_handed time here
  · rcases here.worker (by omega) with ⟨phase, inside⟩ | ⟨phase, done⟩
    · have index : n + 1 + 1 - 2 = n := by omega
      rw [index] at phase
      by_cases more : n < batch.length
      · exact progress_item staged apart time more here phase
      · have spent : (items batch).drop n = [] := by
          apply List.drop_eq_nil_of_le
          simp only [items, List.length_map]
          omega
        have next : commitStep time t c = { c with phase := .returned } := by
          simp only [commitStep, phase, spent]
        rw [next]
        exact progress_done (by omega) here rfl rfl rfl
    · have next : commitStep time t c = c := by
        simp only [commitStep, phase]
      rw [next]
      exact progress_done (by omega) here rfl rfl phase

theorem progress_after (staged : Staged tb t batch) (rep : Represents s log)
    (apart : ∀ u ∈ ids batch, u ∉ keys log) (time : Stamp) (n : Nat) :
    Progress n tb t log batch (crashAfter time t tb s n) := by
  induction n with
  | zero => exact progress_start staged rep
  | succ n ih =>
    exact progress_step staged apart time ih

end Progress

theorem liveUuids_represents {s : Storage} {log : RecordLog} (rep : Represents s log) :
    liveUuids s = keys (live log) := by
  rw [liveUuids, scan_filed rep.toms]
  exact liveFrom_uuids firstTom 0 log

theorem live_after_batch {log : RecordLog} {batch : Batch} {u : UUID} (new : u ∉ keys log) :
    u ∈ keys (live (log ++ entries batch)) ↔ u ∈ ids batch := by
  have split : keys (live (log ++ entries batch)) = keys (live log) ++ ids batch := by
    rw [← keys_entries, ← live_entries]
    simp [live, keys]
  rw [split, List.mem_append]
  constructor
  · rintro (old | here)
    · exact absurd (keys_live_subset log old) new
    · exact here
  · exact Or.inr

/- Exactly the crash points between the COMMIT line and the last append break the commit. -/
theorem commit_atomic_iff {tb : TransactionBuffer Bytes} {s : Storage} {t : Text} {log : RecordLog}
    {batch : Batch} (staged : Staged tb t batch) (rep : Represents s log)
    (apart : ∀ u ∈ ids batch, u ∉ keys log) (time : Stamp) (n : Nat) :
    CrashAtomic time t (ids batch) (crashAfter time t tb s n) ↔
      batch = [] ∨ n = 0 ∨ batch.length + 2 ≤ n := by
  have point := progress_after staged rep apart time n
  obtain ⟨s', opened, rep'⟩ := reopen_represents point.stored
  have started : restart time (crashAfter time t tb s n) = .ok (s',
      (loadTransactionLog (crashAfter time t tb s n).buffer.transactionLog).recover time) := by
    rw [restart, opened]
  have shown : ∀ u ∈ ids batch, (u ∈ liveUuids s' ↔ u ∈ ids (batch.take (n - 2))) := by
    intro u member
    rw [liveUuids_represents rep']
    exact live_after_batch (apart u member)
  constructor
  · rintro ⟨s₂, tb₂, again, _, committed⟩
    obtain ⟨rfl, _⟩ := Prod.mk.inj (Except.ok.inj (again.symm.trans started))
    by_contra between
    have all := committed (point.logged.mpr (by omega))
    have subset : ids batch ⊆ ids (batch.take (n - 2)) := by
      intro u member
      exact (shown u member).mp (all u member)
    have length := (staged.distinct.subperm subset).length_le
    have positive : 0 < batch.length := by
      apply List.length_pos_iff.mpr
      intro empty
      exact between (Or.inl empty)
    simp only [ids, List.length_map, List.length_take] at length
    omega
  · intro safe
    refine ⟨s', _, started, ?_⟩
    have complete : (batch = [] ∨ batch.length + 2 ≤ n) → ∀ u ∈ ids batch, u ∈ liveUuids s' := by
      intro enough u member
      apply (shown u member).mpr
      rcases enough with rfl | past
      · simp [ids] at member
      · rw [List.take_of_length_le (by omega)]
        exact member
    rcases safe with none | start | past
    · exact ⟨Or.inl (complete (Or.inl none)), fun _ => complete (Or.inl none)⟩
    · refine ⟨Or.inr ?_, ?_⟩
      · intro u member live
        have taken := (shown u member).mp live
        subst start
        simp [ids] at taken
      · intro committed
        have logged := point.logged.mp committed
        omega
    · exact ⟨Or.inl (complete (Or.inr past)), fun _ => complete (Or.inr past)⟩

/- How a transaction comes to be staged: message by message. -/
theorem addMessage_begins {tb : TransactionBuffer Bytes} {t : Text} (whole : Whole tb.transactionLog)
    (plain : Plain '|' t) (uncommitted : ¬ Committed tb.transactionLog t)
    (idle : get tb.transactionMessages t = none) (time : Stamp) {u : UUID} (d : Payload)
    (real : u ≠ 0) : Staged (tb.addMessage time t u d.bytes) t [(u, d)] := by
  have begun := whole.snoc (logLine_clean time .BEGIN plain 0)
  simp only [TransactionBuffer.addMessage, TransactionBuffer.begin, idle,
    TransactionBuffer.logOperation]
  refine
    { whole := begun.snoc (logLine_clean time .ADD plain u)
      plain := plain
      uncommitted := ?uncommitted
      active := ?active
      data := ?data
      distinct := ?distinct
      named := ?named }
  case uncommitted =>
    rw [committed_snoc begun time .ADD plain, committed_snoc whole time .BEGIN plain]
    simpa using uncommitted
  case active =>
    simp [ids]
  case data =>
    intro p member
    rw [List.mem_singleton.mp member]
    simp
  case distinct =>
    simp [ids]
  case named =>
    simpa [ids] using real.symm

theorem addMessage_staged {tb : TransactionBuffer Bytes} {t : Text} {batch : Batch}
    (staged : Staged tb t batch) (time : Stamp) {u : UUID} (d : Payload) (new : u ∉ ids batch)
    (real : u ≠ 0) : Staged (tb.addMessage time t u d.bytes) t (batch ++ [(u, d)]) := by
  simp only [TransactionBuffer.addMessage, TransactionBuffer.begin, staged.active,
    TransactionBuffer.logOperation]
  refine
    { whole := staged.whole.snoc (logLine_clean time .ADD staged.plain u)
      plain := staged.plain
      uncommitted := ?uncommitted
      active := ?active
      data := ?data
      distinct := ?distinct
      named := ?named }
  case uncommitted =>
    rw [committed_snoc staged.whole time .ADD staged.plain]
    simpa using staged.uncommitted
  case active =>
    simp [ids]
  case data =>
    intro p member
    rcases List.mem_append.mp member with old | last
    · have other : p.1 ≠ u := by
        intro same
        exact new (List.mem_map.mpr ⟨p, old, same⟩)
      simp only [Function.update_of_ne other]
      exact staged.data p old
    · rw [List.mem_singleton.mp last]
      simp
  case distinct =>
    have apart : ∀ v ∈ ids batch, v ≠ u := by
      intro v member same
      exact new (same ▸ member)
    have split : ids (batch ++ [(u, d)]) = ids batch ++ [u] := by simp [ids]
    rw [split, List.nodup_append]
    refine ⟨staged.distinct, by simp, ?_⟩
    intro v member w last
    rw [List.mem_singleton.mp last]
    exact apart v member
  case named =>
    have split : ids (batch ++ [(u, d)]) = ids batch ++ [u] := by simp [ids]
    rw [split, List.mem_append, List.mem_singleton]
    rintro (old | last)
    · exact staged.named old
    · exact real last.symm

def emptyBuffer : TransactionBuffer Bytes := loadTransactionLog []

def noon : Stamp := ⟨['1','2'],by decide,by decide⟩

def twoStaged : TransactionBuffer Bytes :=
  (emptyBuffer.addMessage noon ['t'] 1 [7]).addMessage noon ['t'] 2 [9]

def twoMessages : Batch := [(1, ⟨[7],by simp,by simp⟩), (2, ⟨[9],by simp,by simp⟩)]

theorem twoStaged_staged : Staged twoStaged ['t'] twoMessages := by
  have plain : Plain '|' ['t'] := by simp [Plain, isSpace]
  have idle : ¬ Committed emptyBuffer.transactionLog ['t'] := by
    rintro ⟨line, member, _⟩
    simp [emptyBuffer, loadTransactionLog, lines] at member
  have whole : Whole emptyBuffer.transactionLog := ⟨[], by simp, rfl⟩
  have first := addMessage_begins (u := 1) whole plain idle rfl noon ⟨[7],by simp,by simp⟩ (by decide)
  exact addMessage_staged first noon ⟨[9],by simp,by simp⟩ (by decide) (by decide)

theorem commit_atomic_iff_two :
    CrashAtomic noon ['t'] [1, 2] (crashAfter noon ['t'] twoStaged fresh 4) ∧
      ¬ CrashAtomic noon ['t'] [1, 2] (crashAfter noon ['t'] twoStaged fresh 2) := by
  have apart : ∀ u ∈ ids twoMessages, u ∉ keys ([] : RecordLog) := by simp [keys]
  have iff := commit_atomic_iff twoStaged_staged fresh_represents apart noon
  exact ⟨(iff 4).mpr (Or.inr (Or.inr (by decide))), fun atomic => absurd ((iff 2).mp atomic)
    (by simp [twoMessages])⟩

/- The crash falls after the COMMIT line and the first of the two appends. -/
theorem half_committed :
    ¬ CrashAtomic noon ['t'] [1, 2] (crashAfter noon ['t'] twoStaged fresh 3) := by
  have apart : ∀ u ∈ ids twoMessages, u ∉ keys ([] : RecordLog) := by simp [keys]
  have point := progress_after twoStaged_staged fresh_represents apart noon 3
  rintro ⟨s, tb, started, halves, _⟩
  obtain ⟨s', opened, rep⟩ := reopen_represents point.stored
  rw [restart, opened] at started
  obtain ⟨rfl, _⟩ := Prod.mk.inj (Except.ok.inj started)
  have shown : liveUuids s' = [1] := liveUuids_represents rep
  rw [shown] at halves
  rcases halves with all | none
  · exact absurd (all 2 (by simp)) (by simp)
  · exact absurd (List.mem_singleton.mpr rfl) (none 1 (by simp))

end TinyMqCommitCrash
