import TinyMq.Broker.BufferRuns
import Mathlib.Data.List.Induction

/-!
The transaction log over the lifetimes of a buffer. A lifetime reads the log, rolls back
what it finds incomplete and appends a line or two with every call. A crash leaves what
was written up to some character, and the next lifetime appends right behind that.
-/
namespace TinyMqLogReplay
open DelimitedText AssocLists Machines TinyMqTom TinyMqTransactionBuffer TinyMqBufferRuns
variable {α : Type}

section Dates

/-- `Poco::DateTime`, as far as a log line prints it. -/
structure DateTime where
  year : Nat
  month : Nat
  day : Nat
  hour : Nat
  minute : Nat
  second : Nat
  millisecond : Nat

/-- `NumberFormatter::append0`. -/
def append0 (value width : Nat) : Text := (Nat.toDigits 10 value).leftpad width '0'

/-- `%Y-%m-%d` -/
def DateTime.date (t : DateTime) : Text :=
  append0 t.year 4 ++ ['-'] ++ append0 t.month 2 ++ ['-'] ++ append0 t.day 2

/-- `%H:%M:%S.%i` -/
def DateTime.clock (t : DateTime) : Text :=
  append0 t.hour 2 ++ [':'] ++ append0 t.minute 2 ++ [':'] ++ append0 t.second 2 ++ ['.'] ++
    append0 t.millisecond 3

/-- What `DateTimeFormatter` makes of it. -/
def DateTime.format (t : DateTime) : Text := t.date ++ [' '] ++ t.clock

theorem append0_plain (value width : Nat) : Plain '|' (append0 value width) := by
  have zero : '0' ≠ '|' ∧ isSpace '0' = false := by decide
  intro c member
  simp only [append0, List.leftpad, List.mem_append, List.mem_replicate] at member
  rcases member with ⟨_, rfl⟩ | inside
  · exact zero
  · have digit := Nat.isDigit_of_mem_toDigits (by decide) (by decide) inside
    simp only [Char.isDigit, Bool.and_eq_true, decide_eq_true_eq, ge_iff_le,
      UInt32.le_iff_toNat_le] at digit
    change 48 ≤ c.toNat ∧ c.toNat ≤ 57 at digit
    refine ⟨?_, ?_⟩
    · rintro rfl
      revert digit
      decide
    · have blank : c ≠ ' ' := by
        rintro rfl
        revert digit
        decide
      have range : ¬ c.toNat ≤ 13 := by omega
      simp [isSpace, blank, range]

theorem plain_mark {c : Char} (mark : c ≠ '|' ∧ isSpace c = false) : Plain '|' [c] := by
  intro x member
  rw [List.mem_singleton.mp member]
  exact mark

theorem date_plain (t : DateTime) : Plain '|' t.date :=
  have hyphen := plain_mark (c := '-') (by decide)
  ((((append0_plain _ _).append hyphen).append (append0_plain _ _)).append hyphen).append
    (append0_plain _ _)

theorem clock_plain (t : DateTime) : Plain '|' t.clock :=
  have colon := plain_mark (c := ':') (by decide)
  have dot := plain_mark (c := '.') (by decide)
  ((((((append0_plain _ _).append colon).append (append0_plain _ _)).append colon).append
    (append0_plain _ _)).append dot).append (append0_plain _ _)

def DateTime.stamp (t : DateTime) : Stamp :=
  ⟨t.format,
    by simp [DateTime.format, (date_plain t).clean, (clock_plain t).clean],
    by simp [DateTime.format, plain_line (date_plain t), plain_line (clock_plain t)]⟩

def Dated (time : Stamp) : Prop := ∃ t : DateTime, time = t.stamp

/- Whatever stands in front of a time in its field, the field is no transaction's name: the
   blank between date and clock stays in it. -/
theorem dated_field {time : Stamp} (dated : Dated time) (front : Text) :
    ¬ Plain '|' (trim (front ++ time.text)) := by
  obtain ⟨t, rfl⟩ := dated
  have date : t.date ≠ [] := by simp [DateTime.date]
  have clock : t.clock ≠ [] := by simp [DateTime.clock]
  obtain ⟨g, kept⟩ := trim_append (date_plain t) (clock_plain t) date clock front [' ']
  intro plain
  rw [show t.stamp.text = t.date ++ [' '] ++ t.clock from rfl, kept] at plain
  have blank := (plain ' ' (by simp)).2
  revert blank
  decide

end Dates

section Lines

/-- What a line tells the loader about the open transactions. -/
def readLine (m : Assoc Text (List UUID)) (line : Text) : Assoc Text (List UUID) :=
  (TransactionBuffer.loadLine (⟨m, fun _ => none, fun _ => none, []⟩ : TransactionBuffer Unit)
    line).transactionMessages

def replay (ls : List Text) : Assoc Text (List UUID) := ls.foldl readLine []

theorem loadLine_messages (tb : TransactionBuffer α) (line : Text) :
    (tb.loadLine line).transactionMessages = readLine tb.transactionMessages line := by
  unfold readLine TransactionBuffer.loadLine
  cases fields line with
  | none => rfl
  | some read =>
    obtain ⟨operation, t, rest⟩ := read
    dsimp only
    split
    · rfl
    · split
      · cases parseUuid (rest.headD []) with
        | none => rfl
        | some id =>
          dsimp only
          cases get tb.transactionMessages t <;> rfl
      · split <;> rfl

theorem loadLine_log (tb : TransactionBuffer α) (line : Text) :
    (tb.loadLine line).transactionLog = tb.transactionLog := by
  unfold TransactionBuffer.loadLine
  split
  · rfl
  · split
    · rfl
    · split
      · split
        · rfl
        · split <;> rfl
      · split <;> rfl

@[simp] theorem load_log (log : Text) :
    (loadTransactionLog log : TransactionBuffer α).transactionLog = log := by
  unfold loadTransactionLog
  have kept : ∀ (ls : List Text) (tb : TransactionBuffer α),
      (ls.foldl TransactionBuffer.loadLine tb).transactionLog = tb.transactionLog := by
    intro ls
    induction ls with
    | nil => exact fun _ => rfl
    | cons line ls ih => exact fun tb => (ih _).trans (loadLine_log tb line)
  exact kept _ _

@[simp] theorem readLine_nil (m : Assoc Text (List UUID)) : readLine m [] = m := by
  have nothing : fields [] = none := by decide
  unfold readLine TransactionBuffer.loadLine
  rw [nothing]

theorem replay_concat (ls : List Text) (line : Text) :
    replay (ls ++ [line]) = readLine (replay ls) line := by
  simp [replay]

theorem load_messages {ls : List Text} (clean : ∀ line ∈ ls, '\n' ∉ line) {torn : Text}
    (tail : '\n' ∉ torn) :
    (loadTransactionLog (unlines ls ++ torn) : TransactionBuffer α).transactionMessages =
      replay (ls ++ [torn]) := by
  have filled : ∀ (ls : List Text) (tb : TransactionBuffer α),
      ((ls.filter fun line => !line.isEmpty).foldl TransactionBuffer.loadLine tb).transactionMessages =
        ls.foldl readLine tb.transactionMessages := by
    intro ls
    induction ls with
    | nil => exact fun _ => rfl
    | cons line ls ih =>
      intro tb
      cases line with
      | nil => simpa using ih tb
      | cons c line => simpa [loadLine_messages] using ih (tb.loadLine (c :: line))
  unfold loadTransactionLog lines
  rw [splitOn_tail clean tail]
  exact filled _ _

/-- The line opens a transaction under this name. -/
def Begins (line t : Text) : Prop := ∃ rest, fields line = some (LogOperation.BEGIN.text, t, rest)

/- A transaction appears in the loader's map with the line that opens it and no other way. -/
theorem readLine_absent {m : Assoc Text (List UUID)} {t : Text} (absent : get m t = none)
    (line : Text) : get (readLine m line) t = none ↔ ¬ Begins line t := by
  unfold readLine TransactionBuffer.loadLine Begins
  cases read : fields line with
  | none => simp [absent]
  | some parts =>
    obtain ⟨operation, u, rest⟩ := parts
    dsimp only
    by_cases begin_ : operation = LogOperation.BEGIN.text
    · by_cases same : t = u
      · simp [begin_, same]
      · simp [begin_, get_put_other _ _ same, absent, Ne.symm same]
    · have other : ¬ ∃ r, some (operation, u, rest) = some (LogOperation.BEGIN.text, t, r) := by
        rintro ⟨r, equal⟩
        simp only [Option.some.injEq, Prod.mk.injEq] at equal
        exact begin_ equal.1
      rw [if_neg begin_]
      refine iff_of_true ?_ other
      split
      · split
        · exact absent
        · split
          · exact absent
          · rename_i ids found
            have differs : t ≠ u := by
              rintro rfl
              rw [absent] at found
              cases found
            rw [get_put_other _ _ differs]
            exact absent
      · split
        · by_cases same : t = u
          · simp [same]
          · rw [get_erase_other _ same]
            exact absent
        · exact absent

section Written
variable (time : Stamp) (m : Assoc Text (List UUID)) {t : Text} (u : UUID)

theorem readLine_begin (plain : Plain '|' t) : readLine m (logLine time .BEGIN t u) = put m t [] := by
  simp [readLine, TransactionBuffer.loadLine, fields_logLine time .BEGIN plain u]

theorem readLine_add (plain : Plain '|' t) : readLine m (logLine time .ADD t u) =
    match get m t with
    | none => m
    | some ids => put m t (ids ++ [u]) := by
  have other : LogOperation.ADD.text ≠ LogOperation.BEGIN.text := by decide
  simp only [readLine, TransactionBuffer.loadLine, fields_logLine time .ADD plain u, if_neg other]
  cases get m t <;> simp

theorem readLine_end (plain : Plain '|' t) {operation : LogOperation}
    (ends : operation = .COMMIT ∨ operation = .ROLLBACK) :
    readLine m (logLine time operation t u) = erase m t := by
  rcases ends with rfl | rfl
  · have first : LogOperation.COMMIT.text ≠ LogOperation.BEGIN.text := by decide
    have second : LogOperation.COMMIT.text ≠ LogOperation.ADD.text := by decide
    simp [readLine, TransactionBuffer.loadLine, fields_logLine time .COMMIT plain u, first, second]
  · have first : LogOperation.ROLLBACK.text ≠ LogOperation.BEGIN.text := by decide
    have second : LogOperation.ROLLBACK.text ≠ LogOperation.ADD.text := by decide
    simp [readLine, TransactionBuffer.loadLine, fields_logLine time .ROLLBACK plain u, first, second]

end Written

theorem fields_head {a b : Text} (first : '|' ∉ a) (second : '|' ∉ b) (c : Text) :
    ∃ t rest, fields (a ++ '|' :: (b ++ '|' :: c)) = some (trim b, t, rest) := by
  unfold fields
  rw [List.splitOn_append_cons_self_of_not_mem first, List.splitOn_append_cons_self_of_not_mem second]
  cases pieces : c.splitOn '|' with
  | nil => exact absurd pieces (List.splitOn_ne_nil '|' c)
  | cons t rest => exact ⟨_, _, rfl⟩

theorem fields_cut {a b c : Text} (first : '|' ∉ a) (second : '|' ∉ b) (third : '|' ∉ c) (d : Text) :
    ∃ rest, fields (a ++ '|' :: (b ++ '|' :: (c ++ '|' :: d))) = some (trim b, trim c, rest) := by
  unfold fields
  rw [List.splitOn_append_cons_self_of_not_mem first, List.splitOn_append_cons_self_of_not_mem second,
    List.splitOn_append_cons_self_of_not_mem third]
  exact ⟨_, rfl⟩

theorem logLine_layout (time : Stamp) (operation : LogOperation) (t : Text) (u : UUID) :
    logLine time operation t u =
      time.text ++ '|' :: (operation.text ++ '|' :: (t ++ '|' :: uuidText u)) := by
  simp [logLine, List.intercalate]

theorem bar_cases (t : Text) : '|' ∉ t ∨ ∃ a b, t = a ++ '|' :: b ∧ '|' ∉ a := by
  by_cases bar : '|' ∈ t
  · obtain ⟨a, b, same, first⟩ := List.eq_append_cons_of_mem bar
    exact Or.inr ⟨a, b, same, first⟩
  · exact Or.inl bar

theorem begins_own {front t v : Text} {operation : LogOperation} {u : UUID} (first : '|' ∉ front)
    (named : operation = .BEGIN → Plain '|' t)
    (begins : Begins (front ++ '|' :: (operation.text ++ '|' :: (t ++ '|' :: uuidText u))) v) :
    operation = .BEGIN ∧ v = t := by
  obtain ⟨rest, read⟩ := begins
  have mark := (operation_plain operation).clean
  obtain ⟨t', rest', head⟩ := fields_head first mark (t ++ '|' :: uuidText u)
  rw [read, (operation_plain operation).trim] at head
  simp only [Option.some.injEq, Prod.mk.injEq] at head
  have same : operation = .BEGIN := by cases operation <;> simp_all [LogOperation.text]
  obtain ⟨rest'', whole⟩ := fields_cut first mark (named same).clean (uuidText u)
  rw [read, (named same).trim] at whole
  simp only [Option.some.injEq, Prod.mk.injEq] at whole
  exact ⟨same, whole.2.1⟩

/- A line that is appended to a torn one opens what the torn one opens or what it opens
   itself: where the two meet, a field has a time in it. -/
theorem begins_merged {time : Stamp} (dated : Dated time) {torn t v : Text} {operation : LogOperation}
    {u : UUID} (named : operation = .BEGIN → Plain '|' t) (plain : Plain '|' v)
    (begins : Begins (torn ++ logLine time operation t u) v) :
    Begins torn v ∨ operation = .BEGIN ∧ v = t := by
  rw [logLine_layout] at begins
  have opText : Plain '|' LogOperation.BEGIN.text := operation_plain .BEGIN
  rcases bar_cases torn with first | ⟨a, torn, rfl, first⟩
  · have front : '|' ∉ torn ++ time.text := by simp [first, time.bars]
    rw [← List.append_assoc] at begins
    exact Or.inr (begins_own front named begins)
  · obtain ⟨rest, read⟩ := begins
    rcases bar_cases torn with second | ⟨b, torn, rfl, second⟩
    · -- the time is in the operation's field
      have middle : '|' ∉ torn ++ time.text := by simp [second, time.bars]
      have layout : (a ++ '|' :: torn) ++ (time.text ++ '|' :: (operation.text ++ '|' ::
          (t ++ '|' :: uuidText u))) = a ++ '|' :: ((torn ++ time.text) ++ '|' ::
          (operation.text ++ '|' :: (t ++ '|' :: uuidText u))) := by simp
      obtain ⟨t', rest', head⟩ := fields_head first middle (operation.text ++ '|' ::
        (t ++ '|' :: uuidText u))
      rw [layout, head] at read
      simp only [Option.some.injEq, Prod.mk.injEq] at read
      exact absurd (read.1 ▸ opText) (dated_field dated torn)
    · rcases bar_cases torn with third | ⟨c, torn, rfl, third⟩
      · -- the time is in the name's field
        have last : '|' ∉ torn ++ time.text := by simp [third, time.bars]
        have layout : (a ++ '|' :: (b ++ '|' :: torn)) ++ (time.text ++ '|' :: (operation.text ++
            '|' :: (t ++ '|' :: uuidText u))) = a ++ '|' :: (b ++ '|' :: ((torn ++ time.text) ++
            '|' :: (operation.text ++ '|' :: (t ++ '|' :: uuidText u)))) := by simp
        obtain ⟨rest', whole⟩ := fields_cut first second last (operation.text ++ '|' ::
          (t ++ '|' :: uuidText u))
        rw [layout, whole] at read
        simp only [Option.some.injEq, Prod.mk.injEq] at read
        exact absurd (read.2.1 ▸ plain) (dated_field dated torn)
      · -- the torn line has both fields
        have layout : (a ++ '|' :: (b ++ '|' :: (c ++ '|' :: torn))) ++ (time.text ++ '|' ::
            (operation.text ++ '|' :: (t ++ '|' :: uuidText u))) = a ++ '|' :: (b ++ '|' :: (c ++
            '|' :: (torn ++ (time.text ++ '|' :: (operation.text ++ '|' :: (t ++ '|' ::
            uuidText u)))))) := by simp
        obtain ⟨rest', whole⟩ := fields_cut first second third (torn ++ (time.text ++ '|' ::
          (operation.text ++ '|' :: (t ++ '|' :: uuidText u))))
        obtain ⟨rest'', old⟩ := fields_cut first second third torn
        rw [layout, whole] at read
        simp only [Option.some.injEq, Prod.mk.injEq] at read
        exact Or.inl ⟨rest'', by rw [old, read.1, read.2.1]⟩

theorem begins_clean {line t : Text} (begins : Begins line t) (clean : '\n' ∉ line) : '\n' ∉ t := by
  obtain ⟨rest, read⟩ := begins
  unfold fields at read
  split at read
  · rename_i a operation u others pieces
    simp only [Option.some.injEq, Prod.mk.injEq] at read
    have member : u ∈ (line.splitOn '|').map trim := by simp [pieces]
    obtain ⟨piece, split, same⟩ := List.mem_map.mp member
    intro newline
    rw [← read.2.1, ← same] at newline
    exact clean (mem_splitOn split (mem_trim newline))
  · cases read

theorem incomplete_iff (tb : TransactionBuffer α) (t : Text) :
    t ∈ tb.incompleteTransactions ↔ get tb.transactionMessages t ≠ none := by
  constructor
  · intro member
    obtain ⟨e, inside, rfl⟩ := List.mem_map.mp member
    exact get_ne_none inside
  · intro found
    obtain ⟨ids, found⟩ := Option.ne_none_iff_exists'.mp found
    exact List.mem_map.mpr ⟨_, get_mem found, rfl⟩

theorem replay_named {P : Text → Prop} {ls : List Text}
    (named : ∀ line ∈ ls, ∀ t, Begins line t → P t) {t : Text} (found : get (replay ls) t ≠ none) :
    P t := by
  induction ls using List.reverseRecOn with
  | nil => simp [replay] at found
  | append_singleton ls line ih =>
    rw [replay_concat] at found
    by_cases before : get (replay ls) t = none
    · have begins : Begins line t := by
        by_contra other
        exact found ((readLine_absent before line).mpr other)
      exact named line (by simp) t begins
    · exact ih (fun l member => named l (List.mem_append_left _ member)) before

end Lines

section Lifetimes

/-- A call on the buffer, or the `recover()` every lifetime begins with. -/
inductive Deed (α : Type) where
  | recover (time : Stamp)
  | call (c : Call α)

def perform (tb : TransactionBuffer α) : Deed α → TransactionBuffer α
  | .recover time => tb.recover time
  | .call c => next tb c

def written (tb : TransactionBuffer α) : Deed α → List Text
  | .recover time => tb.incompleteTransactions.map fun t => logLine time .ROLLBACK t 0
  | .call (.addMessage time t id _) =>
    match get tb.transactionMessages t with
    | some _ => [logLine time .ADD t id]
    | none => [logLine time .BEGIN t 0, logLine time .ADD t id]
  | .call (.patchDeliveryTime _ _) => []
  | .call (.commitTransaction time t) =>
    match get tb.transactionMessages t with
    | some _ => [logLine time .COMMIT t 0]
    | none => []
  | .call (.rollbackTransaction time t) =>
    match get tb.transactionMessages t with
    | some _ => [logLine time .ROLLBACK t 0]
    | none => []

def commits (tb : TransactionBuffer α) : Deed α → List Text
  | .call (.commitTransaction _ t) =>
    match get tb.transactionMessages t with
    | some _ => [t]
    | none => []
  | _ => []

/-- The buffer of the present lifetime, whether its `recover()` is done, and the transactions
    whose COMMIT line was written completely in this or an earlier lifetime. -/
structure Life (α : Type) where
  buffer : TransactionBuffer α := loadTransactionLog []
  recovered : Bool := false
  committed : List Text := []

/-- A deed is done, or the process dies in it with `kept` on the disk and starts again. -/
inductive Event (α : Type) where
  | done (deed : Deed α)
  | crash (deed : Deed α) (kept : Text)

def Life.next (r : Life α) : Event α → Life α
  | .done deed => ⟨perform r.buffer deed,true,r.committed ++ commits r.buffer deed⟩
  | .crash deed kept =>
    let whole := kept = (perform r.buffer deed).transactionLog
    ⟨loadTransactionLog kept,false,r.committed ++ if whole then commits r.buffer deed else []⟩

/-- Calls carry a time, and names without a bar or white space; a name that was committed is
    not used for another transaction. -/
def Proper (committed : List Text) : Call α → Prop
  | .addMessage time t _ _ => Dated time ∧ Plain '|' t ∧ t ∉ committed
  | .patchDeliveryTime _ _ => True
  | .commitTransaction time t => Dated time ∧ Plain '|' t
  | .rollbackTransaction time t => Dated time ∧ Plain '|' t

/-- A lifetime begins with `recover()`, once. -/
def Life.Allows (r : Life α) : Deed α → Prop
  | .recover time => r.recovered = false ∧ Dated time
  | .call c => r.recovered = true ∧ Proper r.committed c

/-- A crash leaves the log as it was and any part of what the deed would have added. -/
def Possible (r : Life α) : Event α → Prop
  | .done deed => r.Allows deed
  | .crash deed kept => r.Allows deed ∧ r.buffer.transactionLog <+: kept ∧
      kept <+: (perform r.buffer deed).transactionLog

/-- No crash tears a line. -/
def Untorn (_ : Life α) : Event α → Prop
  | .done _ => True
  | .crash _ kept => lastLine kept = []

/-- No crash leaves a torn line that opens a transaction by a committed name. -/
def Unspelled (r : Life α) : Event α → Prop
  | .done _ => True
  | .crash _ kept => ∀ t ∈ r.committed, ¬ Begins (lastLine kept) t

section Buffer
variable (tb : TransactionBuffer α)

theorem takeBatch_rest (ids : List UUID) :
    (tb.takeBatch ids).1.transactionMessages = tb.transactionMessages ∧
      (tb.takeBatch ids).1.transactionLog = tb.transactionLog := by
  induction ids generalizing tb with
  | nil => exact ⟨rfl, rfl⟩
  | cons id ids ih =>
    unfold TransactionBuffer.takeBatch
    split
    · exact ih tb
    · exact ih _

theorem discard_messages (time : Stamp) (t : Text) :
    (tb.discard time t).transactionMessages = erase tb.transactionMessages t := by
  simp [TransactionBuffer.discard, TransactionBuffer.logOperation]

theorem discards_log (time : Stamp) (ts : List Text) :
    (ts.foldl (fun tb t => tb.discard time t) tb).transactionLog =
      tb.transactionLog ++ unlines (ts.map fun t => logLine time .ROLLBACK t 0) := by
  induction ts generalizing tb with
  | nil => simp
  | cons t ts ih =>
    rw [List.foldl_cons, ih, List.map_cons, unlines_cons]
    simp [TransactionBuffer.discard, TransactionBuffer.logOperation, unlines]

theorem perform_log (deed : Deed α) :
    (perform tb deed).transactionLog = tb.transactionLog ++ unlines (written tb deed) := by
  cases deed with
  | recover time => exact discards_log tb time _
  | call c =>
    cases c with
    | addMessage time t id data =>
      cases found : get tb.transactionMessages t <;>
        simp [perform, next, written, TransactionBuffer.addMessage, TransactionBuffer.begin,
          TransactionBuffer.logOperation, found, unlines]
    | patchDeliveryTime id patch =>
      simp only [perform, next, written, TransactionBuffer.patchDeliveryTime]
      split <;> simp
    | commitTransaction time t =>
      cases found : get tb.transactionMessages t <;>
        simp [perform, next, written, TransactionBuffer.commitTransaction,
          TransactionBuffer.logOperation, found, (takeBatch_rest tb _).2]
    | rollbackTransaction time t =>
      cases found : get tb.transactionMessages t <;>
        simp [perform, next, written, TransactionBuffer.rollbackTransaction,
          TransactionBuffer.discard, TransactionBuffer.logOperation, found]

theorem recover_messages (time : Stamp) : (tb.recover time).transactionMessages = [] := by
  have none_ : ∀ t, get (tb.recover time).transactionMessages t = none := by
    intro t
    rw [TransactionBuffer.recover, discards_messages]
    split
    · rfl
    · rename_i absent
      by_contra found
      exact absent ((incomplete_iff tb t).mpr found)
  cases left : (tb.recover time).transactionMessages with
  | nil => rfl
  | cons e m => exact absurd (none_ e.1) (by rw [left]; exact get_ne_none List.mem_cons_self)

end Buffer

/-- A line as the buffer writes it: with the time, without a newline in the name, and to begin
    a transaction under a plain name that was not committed. -/
def Made (C : List Text) (line : Text) : Prop :=
  ∃ time operation t u, line = logLine time operation t u ∧ Dated time ∧ '\n' ∉ t ∧
    (operation = .BEGIN → Plain '|' t ∧ t ∉ C)

theorem Made.clean {C : List Text} {line : Text} (made : Made C line) : '\n' ∉ line := by
  obtain ⟨time, operation, t, u, rfl, _, name, _⟩ := made
  have first := plain_line (operation_plain operation)
  have last := plain_line (uuidText_plain u)
  simp [logLine_layout, time.newlines, first, name, last]

theorem Made.begins {C : List Text} {line t : Text} (made : Made C line) (begins : Begins line t) :
    Plain '|' t ∧ t ∉ C := by
  obtain ⟨time, operation, u, id, rfl, _, _, fresh⟩ := made
  rw [logLine_layout] at begins
  obtain ⟨same, rfl⟩ := begins_own time.bars (fun same => (fresh same).1) begins
  exact fresh same

theorem written_made {r : Life α} {deed : Deed α} (allows : r.Allows deed)
    (named : ∀ t ∈ r.buffer.incompleteTransactions, '\n' ∉ t) :
    ∀ line ∈ written r.buffer deed, Made r.committed line := by
  intro line member
  cases deed with
  | recover time =>
    obtain ⟨t, inside, rfl⟩ := List.mem_map.mp member
    exact ⟨time, .ROLLBACK, t, 0, rfl, allows.2, named t inside, fun h => by cases h⟩
  | call c =>
    obtain ⟨_, proper⟩ := allows
    cases c with
    | addMessage time t id data =>
      obtain ⟨dated, plain, fresh⟩ := proper
      have add : Made r.committed (logLine time .ADD t id) :=
        ⟨time, .ADD, t, id, rfl, dated, plain_line plain, fun h => by cases h⟩
      simp only [written] at member
      split at member
      · rw [List.mem_singleton.mp member]
        exact add
      · rcases List.mem_cons.mp member with rfl | later
        · exact ⟨time, .BEGIN, t, 0, rfl, dated, plain_line plain, fun _ => ⟨plain, fresh⟩⟩
        · rw [List.mem_singleton.mp later]
          exact add
    | patchDeliveryTime id patch => cases member
    | commitTransaction time t =>
      simp only [written] at member
      split at member
      · rw [List.mem_singleton.mp member]
        exact ⟨time, .COMMIT, t, 0, rfl, proper.1, plain_line proper.2, fun h => by cases h⟩
      · cases member
    | rollbackTransaction time t =>
      simp only [written] at member
      split at member
      · rw [List.mem_singleton.mp member]
        exact ⟨time, .ROLLBACK, t, 0, rfl, proper.1, plain_line proper.2, fun h => by cases h⟩
      · cases member

theorem perform_replay {r : Life α} {deed : Deed α} (allows : r.Allows deed)
    (plain : ∀ t ∈ r.buffer.incompleteTransactions, Plain '|' t) :
    (written r.buffer deed).foldl readLine r.buffer.transactionMessages =
      (perform r.buffer deed).transactionMessages := by
  cases deed with
  | recover time =>
    have discards : ∀ (ts : List Text) (tb : TransactionBuffer α), (∀ t ∈ ts, Plain '|' t) →
        (ts.map fun t => logLine time .ROLLBACK t 0).foldl readLine tb.transactionMessages =
          (ts.foldl (fun tb t => tb.discard time t) tb).transactionMessages := by
      intro ts
      induction ts with
      | nil => exact fun _ _ => rfl
      | cons t ts ih =>
        intro tb named
        rw [List.map_cons, List.foldl_cons, List.foldl_cons,
          readLine_end time _ 0 (named t (by simp)) (Or.inr rfl), ← discard_messages tb time t]
        exact ih _ fun u member => named u (List.mem_cons_of_mem t member)
    exact discards _ _ plain
  | call c =>
    obtain ⟨_, proper⟩ := allows
    cases c with
    | addMessage time t id data =>
      obtain ⟨_, named, _⟩ := proper
      cases found : get r.buffer.transactionMessages t with
      | none =>
        simp [perform, next, written, TransactionBuffer.addMessage, TransactionBuffer.begin,
          TransactionBuffer.logOperation, found, readLine_begin time _ _ named,
          readLine_add time _ _ named]
      | some ids =>
        simp [perform, next, written, TransactionBuffer.addMessage, TransactionBuffer.begin,
          TransactionBuffer.logOperation, found, readLine_add time _ _ named]
    | patchDeliveryTime id patch =>
      simp only [perform, next, written, TransactionBuffer.patchDeliveryTime]
      split <;> rfl
    | commitTransaction time t =>
      cases found : get r.buffer.transactionMessages t with
      | none => simp [perform, next, written, TransactionBuffer.commitTransaction, found]
      | some ids =>
        simp [perform, next, written, TransactionBuffer.commitTransaction,
          TransactionBuffer.logOperation, found, (takeBatch_rest r.buffer _).1]
        exact readLine_end time _ 0 proper.2 (Or.inl rfl)
    | rollbackTransaction time t =>
      cases found : get r.buffer.transactionMessages t with
      | none => simp [perform, next, written, TransactionBuffer.rollbackTransaction, found]
      | some ids =>
        simp [perform, next, written, TransactionBuffer.rollbackTransaction, discard_messages, found]
        exact readLine_end time _ 0 proper.2 (Or.inr rfl)

section Untorn

/-- A log of complete lines tells the loader what the buffer knows. -/
structure Agrees (tb : TransactionBuffer α) (ls : List Text) : Prop where
  log : tb.transactionLog = unlines ls
  clean : ∀ line ∈ ls, '\n' ∉ line
  named : ∀ line ∈ ls, ∀ t, Begins line t → Plain '|' t
  messages : replay ls = tb.transactionMessages

theorem Agrees.plain {tb : TransactionBuffer α} {ls : List Text} (agrees : Agrees tb ls) :
    ∀ t ∈ tb.incompleteTransactions, Plain '|' t := by
  intro t member
  rw [incomplete_iff, ← agrees.messages] at member
  exact replay_named agrees.named member

theorem Agrees.load {tb : TransactionBuffer α} {ls : List Text} (agrees : Agrees tb ls) :
    (loadTransactionLog tb.transactionLog : TransactionBuffer α).transactionMessages =
      tb.transactionMessages := by
  have read := load_messages (α := α) agrees.clean (show '\n' ∉ ([] : Text) by simp)
  rw [List.append_nil, replay_concat, readLine_nil] at read
  rw [agrees.log, read, agrees.messages]

theorem Agrees.extend {r : Life α} {ls : List Text} (agrees : Agrees r.buffer ls) {deed : Deed α}
    (allows : r.Allows deed) (n : Nat) :
    (∀ line ∈ ls ++ (written r.buffer deed).take n, '\n' ∉ line) ∧
      ∀ line ∈ ls ++ (written r.buffer deed).take n, ∀ t, Begins line t → Plain '|' t := by
  have made := written_made allows fun t member => plain_line (agrees.plain t member)
  constructor
  · intro line member
    rcases List.mem_append.mp member with old | new
    · exact agrees.clean line old
    · exact (made line (List.mem_of_mem_take new)).clean
  · intro line member t begins
    rcases List.mem_append.mp member with old | new
    · exact agrees.named line old t begins
    · exact ((made line (List.mem_of_mem_take new)).begins begins).1

theorem Agrees.perform {r : Life α} {ls : List Text} (agrees : Agrees r.buffer ls) {deed : Deed α}
    (allows : r.Allows deed) :
    Agrees (perform r.buffer deed) (ls ++ written r.buffer deed) := by
  have all := agrees.extend allows (written r.buffer deed).length
  rw [List.take_length] at all
  refine ⟨?_, all.1, all.2, ?_⟩
  · rw [perform_log, agrees.log, unlines_append]
  · rw [← perform_replay allows agrees.plain, ← agrees.messages]
    exact List.foldl_append ..

theorem agrees_loaded {ls : List Text} (clean : ∀ line ∈ ls, '\n' ∉ line)
    (named : ∀ line ∈ ls, ∀ t, Begins line t → Plain '|' t) :
    Agrees (loadTransactionLog (unlines ls) : TransactionBuffer α) ls := by
  have read := load_messages (α := α) clean (show '\n' ∉ ([] : Text) by simp)
  rw [List.append_nil, replay_concat, readLine_nil] at read
  exact ⟨load_log _, clean, named, read.symm⟩

/-- Where a crash in a deed may cut the log. -/
theorem crash_cut {r : Life α} {deed : Deed α} {C : List Text}
    (made : ∀ line ∈ written r.buffer deed, Made C line) {kept : Text}
    (more : r.buffer.transactionLog <+: kept)
    (less : kept <+: (TinyMqLogReplay.perform r.buffer deed).transactionLog) :
    ∃ n part, kept = r.buffer.transactionLog ++ unlines ((written r.buffer deed).take n) ++ part ∧
      '\n' ∉ part := by
  obtain ⟨rest, rfl⟩ := more
  rw [perform_log] at less
  have cut := (List.prefix_append_right_inj _).mp less
  obtain ⟨n, part, same, tail⟩ := prefix_unlines (fun line member => (made line member).clean) cut
  exact ⟨n, part, by rw [same, List.append_assoc], tail⟩

theorem agrees_next (r : Life α) (e : Event α) (agrees : ∃ ls, Agrees r.buffer ls)
    (step : Possible r e ∧ Untorn r e) : ∃ ls, Agrees (r.next e).buffer ls := by
  obtain ⟨ls, agrees⟩ := agrees
  obtain ⟨possible, untorn⟩ := step
  cases e with
  | done deed => exact ⟨_, agrees.perform possible⟩
  | crash deed kept =>
    obtain ⟨allows, more, less⟩ := possible
    have made := written_made allows fun t member => plain_line (agrees.plain t member)
    obtain ⟨n, part, cut, tail⟩ := crash_cut made more less
    obtain ⟨clean, named⟩ := agrees.extend allows n
    rw [agrees.log, ← unlines_append] at cut
    have none_ : part = [] := by
      rw [← lastLine_tail clean tail, ← cut]
      exact untorn
    rw [none_, List.append_nil] at cut
    refine ⟨ls ++ (written r.buffer deed).take n, ?_⟩
    show Agrees (loadTransactionLog kept) _
    rw [cut]
    exact agrees_loaded clean named

end Untorn

section Torn

/-- The log's complete lines and its torn one; the complete ones have the committed
    transactions closed. -/
structure Kept (C : List Text) (log : Text) (ls : List Text) (torn : Text) : Prop where
  log : log = unlines ls ++ torn
  clean : ∀ line ∈ ls, '\n' ∉ line
  tail : '\n' ∉ torn
  gone : ∀ t ∈ C, get (replay ls) t = none

def Silent (C : List Text) (log : Text) : Prop :=
  ∀ t ∈ C, t ∉ (loadTransactionLog log : TransactionBuffer α).incompleteTransactions

section Kept
variable {C : List Text} {log : Text} {ls : List Text} {torn : Text}

theorem Kept.silent_iff (kept : Kept C log ls torn) :
    Silent (α := α) C log ↔ ∀ t ∈ C, ¬ Begins torn t := by
  unfold Silent
  rw [kept.log]
  refine forall₂_congr fun t member => ?_
  rw [incomplete_iff, load_messages kept.clean kept.tail, replay_concat, not_not]
  exact readLine_absent (kept.gone t member) torn

theorem not_begins_nil (t : Text) : ¬ Begins [] t := by
  have nothing : fields [] = none := by decide
  rintro ⟨rest, read⟩
  rw [nothing] at read
  cases read

theorem Kept.line (kept : Kept C log ls torn) (plain : ∀ t ∈ C, Plain '|' t)
    (fine : ∀ t ∈ C, ¬ Begins torn t) {line : Text} (made : Made C line) :
    Kept C (log ++ unlines [line]) (ls ++ [torn ++ line]) [] := by
  have clean := made.clean
  refine ⟨?_, ?_, by simp, ?_⟩
  · rw [kept.log]
    simp [unlines]
  · intro l member
    rcases List.mem_append.mp member with old | new
    · exact kept.clean l old
    · rw [List.mem_singleton.mp new]
      simp [kept.tail, clean]
  · intro t member
    rw [replay_concat, readLine_absent (kept.gone t member)]
    obtain ⟨time, operation, u, id, rfl, dated, _, fresh⟩ := made
    intro begins
    rcases begins_merged dated (fun same => (fresh same).1) (plain t member) begins with old | ⟨same, rfl⟩
    · exact fine t member old
    · exact (fresh same).2 member

theorem Kept.lines (kept : Kept C log ls torn) (plain : ∀ t ∈ C, Plain '|' t)
    (fine : ∀ t ∈ C, ¬ Begins torn t) {new : List Text} (made : ∀ line ∈ new, Made C line) :
    ∃ ls' torn', Kept C (log ++ unlines new) ls' torn' ∧ (∀ t ∈ C, ¬ Begins torn' t) ∧
      (new ≠ [] ∨ torn = [] → torn' = []) := by
  induction new generalizing log ls torn with
  | nil => exact ⟨ls, torn, by simpa using kept, fine, by simp⟩
  | cons line new ih =>
    have first := kept.line plain fine (made line (by simp))
    obtain ⟨ls', torn', more, quiet, closed⟩ := ih first (fun t _ => not_begins_nil t)
      fun l member => made l (List.mem_cons_of_mem line member)
    refine ⟨ls', torn', ?_, quiet, fun _ => closed (Or.inr rfl)⟩
    rw [unlines_cons line new]
    simpa [unlines] using more

theorem Kept.part (kept : Kept C log ls torn) {part : Text} (tail : '\n' ∉ part) :
    Kept C (log ++ part) ls (torn ++ part) :=
  ⟨by rw [kept.log, List.append_assoc], kept.clean, by simp [kept.tail, tail], kept.gone⟩

end Kept

/-- What holds of the log and the buffer between two events. -/
structure Sound (r : Life α) : Prop where
  plain : ∀ t ∈ r.committed, Plain '|' t
  kept : ∃ ls torn, Kept r.committed r.buffer.transactionLog ls torn ∧
    (r.recovered = true → torn = [] ∨ r.buffer.transactionMessages = [])
  named : ∀ t ∈ r.buffer.incompleteTransactions, '\n' ∉ t

theorem commits_plain {r : Life α} {deed : Deed α} (allows : r.Allows deed) :
    ∀ t ∈ commits r.buffer deed, Plain '|' t := by
  intro t member
  unfold commits at member
  split at member
  · split at member
    · rw [List.mem_singleton.mp member]
      exact allows.2.2
    · cases member
  · cases member

theorem incomplete_erase {tb tb' : TransactionBuffer α} {t u : Text}
    (messages : tb'.transactionMessages = erase tb.transactionMessages u)
    (member : t ∈ tb'.incompleteTransactions) : t ∈ tb.incompleteTransactions := by
  unfold TransactionBuffer.incompleteTransactions at member ⊢
  rw [messages] at member
  exact (List.filter_sublist.map _).subset member

theorem perform_named {r : Life α} {deed : Deed α} (allows : r.Allows deed)
    (named : ∀ t ∈ r.buffer.incompleteTransactions, '\n' ∉ t) :
    ∀ t ∈ (perform r.buffer deed).incompleteTransactions, '\n' ∉ t := by
  intro t member
  cases deed with
  | recover time =>
    simp [perform, TransactionBuffer.incompleteTransactions, recover_messages] at member
  | call c =>
    obtain ⟨_, proper⟩ := allows
    cases c with
    | addMessage time u id data =>
      rw [incomplete_iff] at member
      by_cases same : t = u
      · rw [same]
        exact plain_line proper.2.1
      · refine named t ((incomplete_iff _ t).mpr ?_)
        cases found : get r.buffer.transactionMessages u <;>
          simpa [perform, next, TransactionBuffer.addMessage, TransactionBuffer.begin,
            TransactionBuffer.logOperation, found, get_put_other _ _ same] using member
    | patchDeliveryTime id patch =>
      refine named t ?_
      simp only [perform, next, TransactionBuffer.patchDeliveryTime] at member
      split at member <;> exact member
    | commitTransaction time u =>
      cases found : get r.buffer.transactionMessages u with
      | none =>
        simp only [perform, next, TransactionBuffer.commitTransaction, found] at member
        exact named t member
      | some ids =>
        refine named t (incomplete_erase (u := u) ?_ member)
        simp [perform, next, TransactionBuffer.commitTransaction, TransactionBuffer.logOperation,
          found, (takeBatch_rest r.buffer _).1]
    | rollbackTransaction time u =>
      cases found : get r.buffer.transactionMessages u with
      | none =>
        simp only [perform, next, TransactionBuffer.rollbackTransaction, found] at member
        exact named t member
      | some ids =>
        refine named t (incomplete_erase (u := u) ?_ member)
        simp [perform, next, TransactionBuffer.rollbackTransaction, discard_messages, found]

theorem unwritten_call {tb : TransactionBuffer α} {c : Call α} (nothing : written tb (.call c) = []) :
    (perform tb (.call c)).transactionMessages = tb.transactionMessages := by
  cases c with
  | addMessage time t id data =>
    simp only [written] at nothing
    split at nothing <;> cases nothing
  | patchDeliveryTime id patch =>
    simp only [perform, next, TransactionBuffer.patchDeliveryTime]
    split <;> rfl
  | commitTransaction time t =>
    cases found : get tb.transactionMessages t with
    | none => simp only [perform, next, TransactionBuffer.commitTransaction, found]
    | some ids => simp [written, found] at nothing
  | rollbackTransaction time t =>
    cases found : get tb.transactionMessages t with
    | none => simp only [perform, next, TransactionBuffer.rollbackTransaction, found]
    | some ids => simp [written, found] at nothing

theorem performed {r : Life α} {deed : Deed α} (sound : Sound r)
    (silent : Silent (α := α) r.committed r.buffer.transactionLog) (allows : r.Allows deed) :
    ∃ ls torn, Kept (r.committed ++ commits r.buffer deed) (perform r.buffer deed).transactionLog
        ls torn ∧
      (∀ t ∈ r.committed ++ commits r.buffer deed, ¬ Begins torn t) ∧
      (torn = [] ∨ (perform r.buffer deed).transactionMessages = []) := by
  obtain ⟨ls, torn, kept, closed⟩ := sound.kept
  have fine := kept.silent_iff.mp silent
  have made := written_made allows sound.named
  have plainDeed : commits r.buffer deed = [] → ∃ ls torn,
      Kept (r.committed ++ commits r.buffer deed) (perform r.buffer deed).transactionLog ls torn ∧
      (∀ t ∈ r.committed ++ commits r.buffer deed, ¬ Begins torn t) ∧
      (torn = [] ∨ (perform r.buffer deed).transactionMessages = []) := by
    intro none_
    rw [none_, List.append_nil, perform_log]
    obtain ⟨ls', torn', more, quiet, shut⟩ := kept.lines sound.plain fine made
    refine ⟨ls', torn', more, quiet, ?_⟩
    cases deed with
    | recover time => exact Or.inr (recover_messages r.buffer time)
    | call c =>
      by_cases nothing : written r.buffer (.call c) = []
      · rw [unwritten_call nothing]
        exact (closed allows.1).imp (fun same => shut (Or.inr same)) id
      · exact Or.inl (shut (Or.inl nothing))
  cases deed with
  | recover time => exact plainDeed rfl
  | call c =>
    cases c with
    | addMessage time t id data => exact plainDeed rfl
    | patchDeliveryTime id patch => exact plainDeed rfl
    | rollbackTransaction time t => exact plainDeed rfl
    | commitTransaction time t =>
      cases found : get r.buffer.transactionMessages t with
      | none => exact plainDeed (by simp [commits, found])
      | some ids =>
        -- the transaction is open, so this lifetime has written a line before
        have torn_ : torn = [] := by
          refine (closed allows.1).resolve_right ?_
          intro empty
          rw [empty] at found
          cases found
        have plain : Plain '|' t := allows.2.2
        have line : written r.buffer (.call (.commitTransaction time t)) =
            [logLine time .COMMIT t 0] := by simp [written, found]
        have name : commits r.buffer (.call (.commitTransaction time t)) = [t] := by
          simp [commits, found]
        have commit : Made r.committed (logLine time .COMMIT t 0) := made _ (by simp [line])
        have more := kept.line sound.plain fine commit
        rw [name, perform_log, line]
        refine ⟨_, [], ⟨more.log, more.clean, more.tail, ?_⟩, fun u _ => not_begins_nil u, Or.inl rfl⟩
        intro u member
        rcases List.mem_append.mp member with old | new
        · exact more.gone u old
        · rw [List.mem_singleton.mp new, torn_, List.nil_append, replay_concat,
            readLine_end time _ 0 plain (Or.inl rfl), get_erase_same]

theorem sound_next (r : Life α) (e : Event α) (sound : Sound r)
    (silent : Silent (α := α) r.committed r.buffer.transactionLog) (possible : Possible r e) :
    Sound (r.next e) := by
  cases e with
  | done deed =>
    obtain ⟨ls, torn, kept, _, closed⟩ := performed sound silent possible
    refine ⟨?_, ⟨ls, torn, kept, fun _ => closed⟩, perform_named possible sound.named⟩
    intro t member
    rcases List.mem_append.mp member with old | new
    · exact sound.plain t old
    · exact commits_plain possible t new
  | crash deed left =>
    obtain ⟨allows, more, less⟩ := possible
    have loaded : ∀ {C ls torn}, Kept C left ls torn →
        ∀ t ∈ (loadTransactionLog left : TransactionBuffer α).incompleteTransactions, '\n' ∉ t := by
      intro C ls torn kept t member
      rw [kept.log, incomplete_iff, load_messages kept.clean kept.tail] at member
      refine replay_named (P := fun t => '\n' ∉ t) ?_ member
      intro line inside u begins
      refine begins_clean begins ?_
      rcases List.mem_append.mp inside with old | new
      · exact kept.clean line old
      · rw [List.mem_singleton.mp new]
        exact kept.tail
    by_cases whole : left = (perform r.buffer deed).transactionLog
    · obtain ⟨ls, torn, kept, _, _⟩ := performed sound silent allows
      rw [← whole] at kept
      refine ⟨?_, ⟨ls, torn, ?_, fun h => by cases h⟩, loaded kept⟩
      · intro t member
        simp only [Life.next, whole, if_true] at member
        rcases List.mem_append.mp member with old | new
        · exact sound.plain t old
        · exact commits_plain allows t new
      · simpa only [Life.next, load_log, if_pos whole] using kept
    · obtain ⟨ls, torn, kept, _⟩ := sound.kept
      have made := written_made allows sound.named
      obtain ⟨n, part, cut, tail⟩ := crash_cut made more less
      have some_ : ∀ line ∈ (written r.buffer deed).take n, Made r.committed line :=
        fun line member => made line (List.mem_of_mem_take member)
      obtain ⟨ls', torn', lines, _, _⟩ :=
        kept.lines sound.plain (kept.silent_iff.mp silent) some_
      have all := lines.part tail
      rw [← cut] at all
      refine ⟨?_, ⟨ls', torn' ++ part, ?_, fun h => by cases h⟩, loaded all⟩
      · intro t member
        simp only [Life.next, if_neg whole, List.append_nil] at member
        exact sound.plain t member
      · simpa only [Life.next, load_log, if_neg whole, List.append_nil] using all

/- After a deed the loader reports no committed transaction; after a crash it does exactly
   when the torn line spells one. -/
theorem silent_next_iff (r : Life α) (e : Event α) (sound : Sound r)
    (silent : Silent (α := α) r.committed r.buffer.transactionLog) (possible : Possible r e) :
    Silent (α := α) (r.next e).committed (r.next e).buffer.transactionLog ↔ Unspelled r e := by
  cases e with
  | done deed =>
    obtain ⟨ls, torn, kept, fine, _⟩ := performed sound silent possible
    exact iff_of_true (kept.silent_iff.mpr fine) trivial
  | crash deed left =>
    obtain ⟨_, ⟨ls, torn, kept, _⟩, _⟩ := sound_next r (.crash deed left) sound silent possible
    have last : lastLine left = torn := by
      have log := kept.log
      simp only [Life.next, load_log] at log
      rw [log]
      exact lastLine_tail kept.clean kept.tail
    rw [kept.silent_iff]
    simp only [Unspelled, last]
    constructor
    · intro quiet t member
      exact quiet t (List.mem_append_left _ member)
    · intro quiet t member
      by_cases whole : left = (perform r.buffer deed).transactionLog
      · obtain ⟨ls', torn', kept', fine, _⟩ := performed sound silent possible.1
        have same : torn = torn' := by
          rw [← last, whole, kept'.log]
          exact lastLine_tail kept'.clean kept'.tail
        simp only [Life.next, if_pos whole] at member
        rw [same]
        exact fine t member
      · simp only [Life.next, if_neg whole, List.append_nil] at member
        exact quiet t member

end Torn

/-- While no crash tears a line, the loader finds the open transactions with their messages in
    order, and none after a recovery. Over any lifetimes, with the log cut anywhere in the last
    line, it reports no committed transaction as incomplete exactly when no crash leaves a torn
    line that opens a transaction by a committed name. -/
theorem log_replays (events : List (Event α)) (possible : Meets Life.next Possible {} events) :
    (Meets Life.next Untorn {} events → ∀ r ∈ states Life.next ({} : Life α) events,
      (loadTransactionLog r.buffer.transactionLog : TransactionBuffer α).transactionMessages =
          r.buffer.transactionMessages ∧
        ∀ now : DateTime, (loadTransactionLog ((loadTransactionLog r.buffer.transactionLog :
          TransactionBuffer α).recover now.stamp).transactionLog :
            TransactionBuffer α).incompleteTransactions = []) ∧
    ((∀ r ∈ states Life.next ({} : Life α) events, ∀ t ∈ r.committed,
        t ∉ (loadTransactionLog r.buffer.transactionLog :
          TransactionBuffer α).incompleteTransactions) ↔
      Meets Life.next Unspelled {} events) := by
  constructor
  · intro untorn r member
    have both := meets_and possible untorn
    have start : ∃ ls, Agrees ({} : Life α).buffer ls :=
      ⟨[], @agrees_loaded α [] (by simp) (by simp)⟩
    obtain ⟨ls, agrees⟩ := invariant_along agrees_next start both r member
    refine ⟨agrees.load, ?_⟩
    intro now
    have again := agrees_loaded (α := α) agrees.clean agrees.named
    rw [← agrees.log] at again
    have left := (@Agrees.perform α ⟨loadTransactionLog r.buffer.transactionLog, false, []⟩ ls again
      (.recover now.stamp) ⟨rfl, now, rfl⟩).load
    unfold TransactionBuffer.incompleteTransactions
    rw [show (loadTransactionLog r.buffer.transactionLog : TransactionBuffer α).recover now.stamp =
      perform (loadTransactionLog r.buffer.transactionLog) (.recover now.stamp) from rfl, left]
    exact congrArg (List.map Prod.fst) (recover_messages _ now.stamp)
  · have start : Sound ({} : Life α) := by
      refine ⟨by simp, ⟨[], [], ⟨rfl, by simp, by simp, by simp⟩, by simp⟩, ?_⟩
      intro t member
      cases member
    exact @invariant_iff_within (Life α) (Event α) Life.next Unspelled Possible Sound
      (fun r => Silent (α := α) r.committed r.buffer.transactionLog) sound_next silent_next_iff
      {} events start (fun t member => by cases member) possible

/-- What is on the disk when the process dies `n` characters into what a deed writes. -/
def cutAfter (r : Life α) (deed : Deed α) (n : Nat) : Text :=
  r.buffer.transactionLog ++ (unlines (written r.buffer deed)).take n

theorem cutAfter_possible {r : Life α} {deed : Deed α} (allows : r.Allows deed) (n : Nat) :
    Possible r (.crash deed (cutAfter r deed n)) := by
  refine ⟨allows, List.prefix_append _ _, ?_⟩
  rw [perform_log]
  exact (List.prefix_append_right_inj _).mpr (List.take_prefix n _)

def noon : DateTime := ⟨2026,1,1,12,0,0,0⟩

def committedOnce : List (Event Unit) :=
  [.done (.recover noon.stamp), .done (.call (.addMessage noon.stamp ['a'] 1 ())),
    .done (.call (.commitTransaction noon.stamp ['a']))]

def thenTorn (n : Nat) : List (Event Unit) :=
  committedOnce ++ [.crash (.call (.addMessage noon.stamp ['a','b'] 2 ()))
    (cutAfter (committedOnce.foldl Life.next {}) (.call (.addMessage noon.stamp ['a','b'] 2 ())) n)]

theorem thenTorn_possible (n : Nat) : Meets Life.next Possible {} (thenTorn n) := by
  have dated : Dated noon.stamp := ⟨noon, rfl⟩
  have first : Plain '|' ['a'] := by simp [Plain, isSpace]
  have second : Plain '|' ['a','b'] := by simp [Plain, isSpace]
  have allows : (committedOnce.foldl Life.next {}).Allows
      (.call (.addMessage noon.stamp ['a','b'] 2 ())) := by
    refine ⟨rfl, dated, second, ?_⟩
    have committed : (committedOnce.foldl Life.next {}).committed = [['a']] := by decide
    rw [committed]
    simp
  exact ⟨⟨rfl, dated⟩, ⟨rfl, dated, first, by simp [Life.next, commits]⟩, ⟨rfl, dated, first⟩,
    cutAfter_possible allows n, trivial⟩

/- Cut behind the whole name, the line opens `ab`, and the loader reports no more than that. -/
theorem log_replays_twice :
    (∀ r ∈ states Life.next ({} : Life Unit) (thenTorn 0),
      (loadTransactionLog r.buffer.transactionLog : TransactionBuffer Unit).transactionMessages =
        r.buffer.transactionMessages) ∧
    ∀ r ∈ states Life.next ({} : Life Unit) (thenTorn 32), ∀ t ∈ r.committed,
      t ∉ (loadTransactionLog r.buffer.transactionLog :
        TransactionBuffer Unit).incompleteTransactions := by
  constructor
  · have whole : lastLine (cutAfter (committedOnce.foldl Life.next {})
        (.call (.addMessage noon.stamp ['a','b'] 2 ())) 0) = [] := by decide
    have untorn : Meets Life.next Untorn {} (thenTorn 0) := ⟨trivial, trivial, trivial, whole, trivial⟩
    intro r member
    exact ((log_replays (thenTorn 0) (thenTorn_possible 0)).1 untorn r member).1
  · have read : fields (lastLine (cutAfter (committedOnce.foldl Life.next {})
        (.call (.addMessage noon.stamp ['a','b'] 2 ())) 32)) =
          some (LogOperation.BEGIN.text, ['a','b'], []) := by decide
    have committed : (committedOnce.foldl Life.next {}).committed = [['a']] := by decide
    refine (log_replays (thenTorn 32) (thenTorn_possible 32)).2.mpr
      ⟨trivial, trivial, trivial, ?_, trivial⟩
    rintro t member ⟨rest, begins⟩
    rw [show t = ['a'] from List.mem_singleton.mp (committed ▸ member)] at begins
    rw [read] at begins
    simp at begins

/- Cut inside the name, it opens `a` once more: the committed transaction is reported. -/
theorem torn_name_reported :
    (¬ ∀ events : List (Event Unit), Meets Life.next Possible {} events →
      ∀ r ∈ states Life.next ({} : Life Unit) events, ∀ t ∈ r.committed,
        t ∉ (loadTransactionLog r.buffer.transactionLog :
          TransactionBuffer Unit).incompleteTransactions) ∧
    ((thenTorn 31).foldl Life.next {}).committed = [['a']] ∧
    (loadTransactionLog ((thenTorn 31).foldl Life.next {}).buffer.transactionLog :
      TransactionBuffer Unit).incompleteTransactions = [['a']] := by
  have committed : ((thenTorn 31).foldl Life.next {}).committed = [['a']] := by decide +kernel
  have reported : (loadTransactionLog ((thenTorn 31).foldl Life.next {}).buffer.transactionLog :
      TransactionBuffer Unit).incompleteTransactions = [['a']] := by decide
  refine ⟨?_, committed, reported⟩
  intro quiet
  exact quiet (thenTorn 31) (thenTorn_possible 31) _ (last_state_mem Life.next {} (thenTorn 31)) ['a']
    (by rw [committed]; simp) (by rw [reported]; simp)

end Lifetimes

end TinyMqLogReplay
