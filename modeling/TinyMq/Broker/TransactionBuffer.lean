import TinyMq.Lib.AssocLists
import TinyMq.Lib.DelimitedText
import TinyMq.Storage.TomFile
import Mathlib.Logic.Function.Basic

/-!
`TransactionBuffer.cpp`: the messages a transaction has staged, and the text log
of its life. The log is the file's content; every operation writes one line and
flushes it. The hash map of transactions is a list in its iteration order. The
buffer never looks into the data it holds, so the data is of any type.
-/
namespace TinyMqTransactionBuffer
open DelimitedText AssocLists TinyMqTom
variable {α : Type}

inductive LogOperation where
  | BEGIN
  | ADD
  | COMMIT
  | ROLLBACK
  deriving DecidableEq, Repr

def LogOperation.text : LogOperation → Text
  | BEGIN => ['B','E','G','I','N']
  | ADD => ['A','D','D']
  | COMMIT => ['C','O','M','M','I','T']
  | ROLLBACK => ['R','O','L','L','B','A','C','K']

def hexDigit (n : Nat) : Char :=
  ['0','1','2','3','4','5','6','7','8','9','a','b','c','d','e','f'].getD n '0'

def hexDigits (u : UUID) : Text :=
  (List.range 32).map fun i => hexDigit (u.toNat / 16 ^ (31 - i) % 16)

/-- `Poco::UUID::toString`: groups of 8, 4, 4, 4 and 12 digits. -/
def uuidText (u : UUID) : Text :=
  let d := hexDigits u
  d.take 8 ++ ['-'] ++ (d.drop 8).take 4 ++ ['-'] ++ (d.drop 12).take 4 ++ ['-'] ++
    (d.drop 16).take 4 ++ ['-'] ++ d.drop 20

/-- Poco's `nibble`: anything that is no digit counts as zero. -/
def nibble (c : Char) : Nat :=
  if 'a' ≤ c ∧ c ≤ 'f' then c.toNat - 'a'.toNat + 10
  else if 'A' ≤ c ∧ c ≤ 'F' then c.toNat - 'A'.toNat + 10
  else if '0' ≤ c ∧ c ≤ '9' then c.toNat - '0'.toNat
  else 0

/-- `Poco::UUID::parse`; `none` is its exception. -/
def parseUuid (t : Text) : Option UUID :=
  let value (digits : Text) : UUID := BitVec.ofNat 128 (digits.foldl (fun n c => 16 * n + nibble c) 0)
  if t.length < 32 then none
  else if t[8]? = some '-' ∧ t[13]? = some '-' ∧ t[18]? = some '-' ∧ t[23]? = some '-' then
    if t.length < 36 then none
    else some (value (t.take 8 ++ (t.drop 9).take 4 ++ (t.drop 14).take 4 ++ (t.drop 19).take 4 ++
      (t.drop 24).take 12))
  else some (value (t.take 32))

/-- The time a line starts with, as `DateTimeFormatter` prints it; nothing reads it back. -/
structure Stamp where
  text : Text
  bars : '|' ∉ text
  newlines : '\n' ∉ text

structure TransactionBuffer (α : Type) where
  transactionMessages : Assoc Text (List UUID)
  messageToTransaction : UUID → Option Text
  bufferedData : UUID → Option α
  transactionLog : Text

/-- One line of the log, without its newline. -/
def logLine (time : Stamp) (operation : LogOperation) (transactionId : Text) (messageId : UUID) :
    Text :=
  ['|'].intercalate [time.text, operation.text, transactionId, uuidText messageId]

def TransactionBuffer.logOperation (tb : TransactionBuffer α) (time : Stamp)
    (operation : LogOperation) (transactionId : Text) (messageId : UUID) : TransactionBuffer α :=
  { tb with transactionLog :=
      tb.transactionLog ++ unlines [logLine time operation transactionId messageId] }

/-- A transaction begins with its first message. -/
def TransactionBuffer.begin (tb : TransactionBuffer α) (time : Stamp)
    (transactionId : Text) : TransactionBuffer α :=
  match get tb.transactionMessages transactionId with
  | some _ => tb
  | none =>
    TransactionBuffer.logOperation
      { tb with transactionMessages := put tb.transactionMessages transactionId [] }
      time .BEGIN transactionId 0

def TransactionBuffer.addMessage (tb : TransactionBuffer α) (time : Stamp) (transactionId : Text)
    (messageId : UUID) (data : α) : TransactionBuffer α :=
  let tb := tb.begin time transactionId
  let ids := (get tb.transactionMessages transactionId).getD []
  TransactionBuffer.logOperation
    { tb with
      bufferedData := Function.update tb.bufferedData messageId (some data),
      messageToTransaction := Function.update tb.messageToTransaction messageId (some transactionId),
      transactionMessages := put tb.transactionMessages transactionId (ids ++ [messageId]) }
    time .ADD transactionId messageId

/-- The data of a buffered message is patched in place; what a patch does to the
    data is the data's own business. -/
def TransactionBuffer.patchDeliveryTime (tb : TransactionBuffer α) (messageId : UUID)
    (patch : α → α) : TransactionBuffer α :=
  match tb.bufferedData messageId with
  | none => tb
  | some data =>
    { tb with bufferedData := Function.update tb.bufferedData messageId (some (patch data)) }

/-- The loop of `commitTransaction` that moves the buffered data into the batch:
    an id whose data is gone, or was taken by an earlier id, is skipped. -/
def TransactionBuffer.takeBatch :
    TransactionBuffer α → List UUID → TransactionBuffer α × List (UUID × α)
  | tb, [] => (tb, [])
  | tb, id :: ids =>
    match tb.bufferedData id with
    | none => tb.takeBatch ids
    | some data =>
      let (tb, batch) := TransactionBuffer.takeBatch
        { tb with bufferedData := Function.update tb.bufferedData id none,
                  messageToTransaction := Function.update tb.messageToTransaction id none } ids
      (tb, (id, data) :: batch)

/-- What `commitTransaction` does under its lock; the batch goes to `appendBatch`. -/
def TransactionBuffer.commitTransaction (tb : TransactionBuffer α) (time : Stamp)
    (transactionId : Text) : TransactionBuffer α × List (UUID × α) :=
  match get tb.transactionMessages transactionId with
  | none => (tb, [])
  | some ids =>
    let (tb, batch) := tb.takeBatch ids
    (TransactionBuffer.logOperation
      { tb with transactionMessages := erase tb.transactionMessages transactionId }
      time .COMMIT transactionId 0, batch)

/-- The loop of `rollbackTransaction` and of `recover` over one transaction's messages. -/
def TransactionBuffer.forget (tb : TransactionBuffer α) (ids : List UUID) : TransactionBuffer α :=
  ids.foldl (fun tb id =>
    { tb with bufferedData := Function.update tb.bufferedData id none,
              messageToTransaction := Function.update tb.messageToTransaction id none }) tb

def TransactionBuffer.discard (tb : TransactionBuffer α) (time : Stamp) (transactionId : Text) :
    TransactionBuffer α :=
  let tb := tb.forget ((get tb.transactionMessages transactionId).getD [])
  TransactionBuffer.logOperation
    { tb with transactionMessages := erase tb.transactionMessages transactionId }
    time .ROLLBACK transactionId 0

def TransactionBuffer.rollbackTransaction (tb : TransactionBuffer α) (time : Stamp)
    (transactionId : Text) : TransactionBuffer α :=
  match get tb.transactionMessages transactionId with
  | none => tb
  | some _ => tb.discard time transactionId

/-- The fields of a log line that the loader looks at: operation, transaction, the rest. -/
def fields (line : Text) : Option (Text × Text × List Text) :=
  match (line.splitOn '|').map trim with
  | _ :: operation :: transactionId :: rest => some (operation, transactionId, rest)
  | _ => none

def TransactionBuffer.loadLine (tb : TransactionBuffer α) (line : Text) : TransactionBuffer α :=
  match fields line with
  | none => tb
  | some (operation, transactionId, rest) =>
    if operation = LogOperation.BEGIN.text then
      { tb with transactionMessages := put tb.transactionMessages transactionId [] }
    else if operation = LogOperation.ADD.text ∧ rest ≠ [] then
      match parseUuid (rest.headD []) with
      | none => tb
      | some id =>
        match get tb.transactionMessages transactionId with
        | none => tb
        | some ids =>
          { tb with
            transactionMessages := put tb.transactionMessages transactionId (ids ++ [id]),
            messageToTransaction :=
              Function.update tb.messageToTransaction id (some transactionId) }
    else if operation = LogOperation.COMMIT.text ∨ operation = LogOperation.ROLLBACK.text then
      { tb with transactionMessages := erase tb.transactionMessages transactionId }
    else tb

def loadTransactionLog (log : Text) : TransactionBuffer α :=
  (lines log).foldl TransactionBuffer.loadLine ⟨[],fun _ => none,fun _ => none,log⟩

def TransactionBuffer.incompleteTransactions (tb : TransactionBuffer α) : List Text :=
  tb.transactionMessages.map (·.1)

def TransactionBuffer.recover (tb : TransactionBuffer α) (time : Stamp) : TransactionBuffer α :=
  tb.incompleteTransactions.foldl (fun tb id => tb.discard time id) tb

section Messages
variable (tb : TransactionBuffer α)

@[simp] theorem forget_messages (ids : List UUID) :
    (tb.forget ids).transactionMessages = tb.transactionMessages := by
  induction ids generalizing tb with
  | nil => rfl
  | cons id ids ih => exact ih _

@[simp] theorem forget_log (ids : List UUID) :
    (tb.forget ids).transactionLog = tb.transactionLog := by
  induction ids generalizing tb with
  | nil => rfl
  | cons id ids ih => exact ih _

theorem forget_data (ids : List UUID) (u : UUID) :
    (tb.forget ids).bufferedData u = if u ∈ ids then none else tb.bufferedData u := by
  induction ids generalizing tb with
  | nil => rfl
  | cons id ids ih =>
    have rest := ih { tb with
      bufferedData := Function.update tb.bufferedData id none,
      messageToTransaction := Function.update tb.messageToTransaction id none }
    rw [show (tb.forget (id :: ids)).bufferedData u = _ from rest]
    by_cases same : u = id
    · simp [same]
    · simp [same]

/- While every id still has its data and none is named twice, the loop of the
   commit hands over all of them and forgets them as a rollback does. -/
theorem takeBatch_forget {tb : TransactionBuffer α} {batch : List (UUID × α)}
    (data : ∀ p ∈ batch, tb.bufferedData p.1 = some p.2) (distinct : (batch.map (·.1)).Nodup) :
    tb.takeBatch (batch.map (·.1)) = (tb.forget (batch.map (·.1)), batch) := by
  induction batch generalizing tb with
  | nil => rfl
  | cons p batch ih =>
    obtain ⟨absent, rest⟩ := List.nodup_cons.mp distinct
    have here := data p (by simp)
    have kept : ∀ q ∈ batch, Function.update tb.bufferedData p.1 none q.1 = some q.2 := by
      intro q member
      have other : q.1 ≠ p.1 := by
        intro same
        exact absent (List.mem_map.mpr ⟨q, member, same⟩)
      rw [Function.update_of_ne other]
      exact data q (List.mem_cons_of_mem p member)
    have taken := @ih { tb with
      bufferedData := Function.update tb.bufferedData p.1 none,
      messageToTransaction := Function.update tb.messageToTransaction p.1 none } kept rest
    simp only [List.map_cons, TransactionBuffer.takeBatch, here, taken]
    rfl

end Messages

def Whole (log : Text) : Prop := ∃ ls, (∀ line ∈ ls, '\n' ∉ line) ∧ log = unlines ls

def Committed (log transactionId : Text) : Prop :=
  ∃ line ∈ lines log, ∃ rest, fields line = some (LogOperation.COMMIT.text, transactionId, rest)

theorem hexDigit_plain (n : Nat) : hexDigit (n % 16) ≠ '|' ∧
    isSpace (hexDigit (n % 16)) = false := by
  have digits : ∀ i < 16, hexDigit i ≠ '|' ∧ isSpace (hexDigit i) = false := by decide
  exact digits (n % 16) (Nat.mod_lt n (by decide))

theorem uuidText_chars {P : Char → Prop} (digit : ∀ n, P (hexDigit (n % 16))) (hyphen : P '-')
    (u : UUID) : ∀ x ∈ uuidText u, P x := by
  have digits : ∀ x ∈ hexDigits u, P x := by
    intro x member
    obtain ⟨i, _, rfl⟩ := List.mem_map.mp member
    exact digit _
  have part : ∀ a b, ∀ x ∈ ((hexDigits u).drop a).take b, P x := by
    intro a b x member
    exact digits x (List.mem_of_mem_drop (List.mem_of_mem_take member))
  intro x member
  simp only [uuidText, List.mem_append, List.mem_singleton] at member
  rcases member with ((((((((m | rfl) | m) | rfl) | m) | rfl) | m) | rfl) | m)
  · exact digits x (List.mem_of_mem_take m)
  · exact hyphen
  · exact part 8 4 x m
  · exact hyphen
  · exact part 12 4 x m
  · exact hyphen
  · exact part 16 4 x m
  · exact hyphen
  · exact digits x (List.mem_of_mem_drop m)

theorem uuidText_plain (u : UUID) : Plain '|' (uuidText u) :=
  uuidText_chars hexDigit_plain (by decide) u

theorem nibble_hexDigit (n : Nat) : nibble (hexDigit (n % 16)) = n % 16 := by
  have digits : ∀ i < 16, nibble (hexDigit i) = i := by decide
  exact digits (n % 16) (Nat.mod_lt n (by decide))

theorem digits_value (n k : Nat) :
    (((List.range k).map fun i => hexDigit (n / 16 ^ (k - 1 - i) % 16)).foldl
      (fun n c => 16 * n + nibble c) 0) = n % 16 ^ k := by
  induction k generalizing n with
  | zero => simp [Nat.mod_one]
  | succ k ih =>
    have front : (List.range k).map (fun i => hexDigit (n / 16 ^ (k + 1 - 1 - i) % 16)) =
        (List.range k).map fun i => hexDigit (n / 16 / 16 ^ (k - 1 - i) % 16) := by
      apply List.map_congr_left
      intro i member
      have below := List.mem_range.mp member
      have step : k + 1 - 1 - i = k - 1 - i + 1 := by omega
      rw [step, Nat.pow_succ', Nat.div_div_eq_div_mul]
    rw [List.range_succ, List.map_append, List.foldl_append, front, ih]
    simp only [Nat.add_sub_cancel, Nat.sub_self, Nat.pow_zero, Nat.div_one, List.map_cons,
      List.map_nil, List.foldl_cons, List.foldl_nil, nibble_hexDigit]
    rw [Nat.pow_succ', Nat.mod_mul]
    omega

theorem hexDigits_length (u : UUID) : (hexDigits u).length = 32 := by simp [hexDigits]

@[simp] theorem parseUuid_uuidText (u : UUID) : parseUuid (uuidText u) = some u := by
  have size := hexDigits_length u
  have whole : uuidText u = (hexDigits u).take 8 ++ '-' :: (((hexDigits u).drop 8).take 4 ++
      '-' :: (((hexDigits u).drop 12).take 4 ++ '-' :: (((hexDigits u).drop 16).take 4 ++
      '-' :: (hexDigits u).drop 20))) := by simp [uuidText]
  have length : (uuidText u).length = 36 := by
    rw [whole]
    simp [size]
  have value := digits_value u.toNat 32
  have hyphens : (uuidText u)[8]? = some '-' ∧ (uuidText u)[13]? = some '-' ∧
      (uuidText u)[18]? = some '-' ∧ (uuidText u)[23]? = some '-' := by
    rw [whole]
    simp [size]
  unfold parseUuid
  rw [if_neg (by omega), if_pos hyphens, if_neg (by omega)]
  have groups : (uuidText u).take 8 ++ ((uuidText u).drop 9).take 4 ++ ((uuidText u).drop 14).take 4 ++
      ((uuidText u).drop 19).take 4 ++ ((uuidText u).drop 24).take 12 = hexDigits u := by
    rw [whole]
    have join : ∀ a b : Nat, ((hexDigits u).drop a).take b ++ (hexDigits u).drop (a + b) =
        (hexDigits u).drop a := by
      intro a b
      rw [← List.drop_drop, List.take_append_drop]
    have last : ((hexDigits u).drop 20).take 12 = (hexDigits u).drop 20 :=
      List.take_of_length_le (by simp [size])
    simp [List.drop_append, List.drop_take, size, last, join]
  rw [groups]
  simp only [Option.some.injEq]
  unfold hexDigits
  rw [show (fun i => hexDigit (u.toNat / 16 ^ (31 - i) % 16)) =
    fun i => hexDigit (u.toNat / 16 ^ (32 - 1 - i) % 16) from rfl, value,
    Nat.mod_eq_of_lt (by exact u.isLt)]
  simp

theorem operation_plain (operation : LogOperation) : Plain '|' operation.text := by
  cases operation <;> simp [Plain, LogOperation.text, isSpace]

theorem plain_line {t : Text} (plain : Plain '|' t) : '\n' ∉ t := by
  intro member
  have blank := (plain '\n' member).2
  revert blank
  decide

theorem logLine_clean (time : Stamp) (operation : LogOperation) {transactionId : Text}
    (plain : Plain '|' transactionId) (messageId : UUID) :
    '\n' ∉ logLine time operation transactionId messageId := by
  have first := plain_line (operation_plain operation)
  have second := plain_line plain
  have third := plain_line (uuidText_plain messageId)
  simp [logLine, List.intercalate, time.newlines, first, second, third]

theorem fields_logLine (time : Stamp) (operation : LogOperation) {transactionId : Text}
    (plain : Plain '|' transactionId) (messageId : UUID) :
    fields (logLine time operation transactionId messageId) =
      some (operation.text, transactionId, [uuidText messageId]) := by
  have pieces : (logLine time operation transactionId messageId).splitOn '|' =
      [time.text, operation.text, transactionId, uuidText messageId] := by
    refine List.splitOn_intercalate '|' ?_ (by simp)
    intro piece member
    simp only [List.mem_cons, List.not_mem_nil, or_false] at member
    rcases member with rfl | rfl | rfl | rfl
    · exact time.bars
    · exact (operation_plain operation).clean
    · exact plain.clean
    · exact (uuidText_plain messageId).clean
  unfold fields
  rw [pieces]
  simp only [List.map_cons, List.map_nil, (operation_plain operation).trim, plain.trim,
    (uuidText_plain messageId).trim]

theorem Whole.snoc {log line : Text} (whole : Whole log) (clean : '\n' ∉ line) :
    Whole (log ++ unlines [line]) := by
  obtain ⟨ls, lines, rfl⟩ := whole
  refine ⟨ls ++ [line], ?_, by simp [unlines]⟩
  intro l member
  rcases List.mem_append.mp member with old | new
  · exact lines l old
  · rw [List.mem_singleton.mp new]
    exact clean

theorem lines_snoc {log line : Text} (whole : Whole log) (clean : '\n' ∉ line)
    (filled : line ≠ []) : lines (log ++ unlines [line]) = lines log ++ [line] := by
  obtain ⟨ls, old, rfl⟩ := whole
  have together : unlines ls ++ unlines [line] = unlines (ls ++ [line]) := by simp [unlines]
  have all : ∀ l ∈ ls ++ [line], '\n' ∉ l := by
    intro l member
    rcases List.mem_append.mp member with before | new
    · exact old l before
    · rw [List.mem_singleton.mp new]
      exact clean
  have kept : (!line.isEmpty) = true := by simpa using filled
  rw [together, lines_unlines all, lines_unlines old, List.filter_append]
  simp [kept]

theorem committed_snoc {log : Text} (whole : Whole log) (time : Stamp) (operation : LogOperation)
    {t u : Text} (plain : Plain '|' t) (messageId : UUID) :
    Committed (log ++ unlines [logLine time operation t messageId]) u ↔
      Committed log u ∨ operation = .COMMIT ∧ t = u := by
  have filled : logLine time operation t messageId ≠ [] := by
    simp [logLine, List.intercalate]
  have read := fields_logLine time operation plain messageId
  unfold Committed
  rw [lines_snoc whole (logLine_clean time operation plain messageId) filled]
  constructor
  · rintro ⟨line, member, rest, found⟩
    rcases List.mem_append.mp member with old | new
    · exact Or.inl ⟨line, old, rest, found⟩
    · rw [List.mem_singleton.mp new, read] at found
      injection found with found
      injection found with text others
      injection others with same _
      refine Or.inr ⟨?_, same⟩
      cases operation <;> revert text <;> decide
  · rintro (⟨line, member, found⟩ | ⟨rfl, rfl⟩)
    · exact ⟨line, List.mem_append_left _ member, found⟩
    · exact ⟨_, List.mem_append_right _ (List.mem_singleton.mpr rfl), _, read⟩

end TinyMqTransactionBuffer
