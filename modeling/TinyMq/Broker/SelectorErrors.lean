import TinyMq.Broker.SelectorParsing
import TinyMq.Broker.SelectorTokens

/-!
`Selector::parse` on any text: what it throws, and which texts it takes although a
literal of theirs has no end.
-/
namespace TinyMqSelectorErrors
open Doubles TopDown TinyMqMessage TinyMqWireFormat TinyMqSelector TinyMqSelectorGrammar
  TinyMqSelectorReading TinyMqSelectorParsing TinyMqSelectorTokens

section Throwing
variable (stod : Str → Except NumberError Double) (message : Str)

theorem current_leaves : LeavesSome current := by
  intro ts rest t some_ done
  obtain ⟨_, rfl⟩ : ts.headD ⟨.EOF_TOKEN, []⟩ = t ∧ ts = rest := by
    simpa using Except.ok.inj done
  exact some_

theorem advance_leaves : LeavesSome (advance (some message)) := LeavesSome.skip _

theorem refuse_leaves (text : Str → Str) : LeavesSome (refuse text : Parse α) := by
  apply LeavesSome.error
  intro ts
  exact ⟨_, rfl⟩

theorem convert_leaves (value : Except NumberError β) : LeavesSome (convert value) := by
  cases value with
  | ok v => exact LeavesSome.pure v
  | error e =>
    apply LeavesSome.error
    intro ts
    exact ⟨_, rfl⟩

theorem consume_leaves (type : TokenType) (what : Str) :
    LeavesSome (consume (some message) type what) := by
  apply LeavesSome.branch
  · apply current_leaves.bind
    intro tok
    exact (advance_leaves message).bind fun _ => LeavesSome.pure tok
  · exact refuse_leaves _

theorem advanced_leaves (value : α) :
    LeavesSome (advance (some message) >>= fun _ => (pure value : Parse α)) :=
  (advance_leaves message).bind fun _ => LeavesSome.pure value

theorem accept_leaves (type : TokenType) : LeavesSome (accept (some message) type) := by
  apply LeavesSome.branch
  · exact advanced_leaves message true
  · exact LeavesSome.pure false

theorem parsePrimary_leaves {parseOr : Parse EvalFn} (inner : LeavesSome parseOr) :
    LeavesSome (parsePrimary stod (some message) parseOr) := by
  unfold parsePrimary
  apply LeavesSome.branch
  · apply (advance_leaves message).bind
    intro _
    apply inner.bind
    intro expr
    exact (consume_leaves message _ _).bind fun _ => LeavesSome.pure expr
  iterate 3
    apply LeavesSome.branch
    · exact advanced_leaves message _
  apply LeavesSome.branch
  · exact current_leaves.bind fun val => advanced_leaves message _
  iterate 2
    apply LeavesSome.branch
    · apply current_leaves.bind
      intro tok
      exact (convert_leaves _).bind fun val => advanced_leaves message _
  apply LeavesSome.branch
  · exact current_leaves.bind fun name => advanced_leaves message _
  · exact refuse_leaves _

theorem parseOperator_leaves {parsePrimary : Parse EvalFn} (primary : LeavesSome parsePrimary)
    (left : EvalFn) (negated : Bool) :
    LeavesSome (parseOperator (some message) parsePrimary left negated) := by
  have item : ∀ items : List EvalFn, LeavesSome (parsePrimary >>= fun item =>
      (pure (items ++ [item]) : Parse (List EvalFn))) :=
    fun items => primary.bind fun item => LeavesSome.pure _
  unfold parseOperator
  apply LeavesSome.branch
  · apply (advance_leaves message).bind
    intro _
    apply primary.bind
    intro low
    apply (consume_leaves message _ _).bind
    intro _
    exact primary.bind fun high => LeavesSome.pure _
  apply LeavesSome.branch
  · apply (advance_leaves message).bind
    intro _
    apply (consume_leaves message _ _).bind
    intro _
    apply primary.bind
    intro first
    apply (LeavesSome.whileNext (fun items => (advance_leaves message).bind fun _ => item items) _).bind
    intro items
    exact (consume_leaves message _ _).bind fun _ => LeavesSome.pure _
  apply LeavesSome.branch
  · apply (advance_leaves message).bind
    intro _
    exact (consume_leaves message _ _).bind fun patTok => LeavesSome.pure _
  cases negated with
  | true =>
    apply LeavesSome.error
    intro ts
    exact ⟨_, rfl⟩
  | false =>
    apply LeavesSome.branch
    · apply current_leaves.bind
      intro op
      apply (advance_leaves message).bind
      intro _
      exact primary.bind fun right => LeavesSome.pure _
    · exact LeavesSome.pure left

theorem parseComparison_leaves {parsePrimary : Parse EvalFn} (primary : LeavesSome parsePrimary) :
    LeavesSome (parseComparison (some message) parsePrimary) := by
  unfold parseComparison
  apply primary.bind
  intro left
  apply LeavesSome.branch
  · apply (advance_leaves message).bind
    intro _
    apply (accept_leaves message _).bind
    intro negated
    exact (consume_leaves message _ _).bind fun _ => LeavesSome.pure _
  · exact (accept_leaves message _).bind fun negated => parseOperator_leaves message primary left negated

theorem exhausted_leaves : LeavesSome (throw .exhausted : Parse α) := by
  apply LeavesSome.error
  intro ts
  exact ⟨_, rfl⟩

theorem parseNot_leaves {parseComparison : Parse EvalFn} (comparison : LeavesSome parseComparison)
    (depth : Nat) : LeavesSome (parseNot (some message) parseComparison depth) := by
  induction depth with
  | zero => exact exhausted_leaves
  | succ depth ih =>
    apply LeavesSome.branch
    · apply (advance_leaves message).bind
      intro _
      exact ih.bind fun expr => LeavesSome.pure _
    · exact comparison

theorem loop_leaves {operand : Parse EvalFn} (leaves : LeavesSome operand) (type : TokenType)
    (combine : EvalFn → EvalFn → EvalFn) :
    LeavesSome (operand >>= fun left => whileNext (fun t => t.type = type) (fun left => do
      advance (some message)
      let right ← operand
      return combine left right) left) := by
  apply leaves.bind
  intro left
  apply LeavesSome.whileNext
  intro left
  apply (advance_leaves message).bind
  intro _
  exact leaves.bind fun right => LeavesSome.pure _

theorem parseOr_leaves (depth : Nat) : LeavesSome (parseOr stod (some message) depth) := by
  induction depth with
  | zero => exact exhausted_leaves
  | succ depth ih =>
    have comparison := parseComparison_leaves message (parsePrimary_leaves stod message ih)
    have conjunctions := loop_leaves message (parseNot_leaves message comparison (depth + 1)) .AND
      conjunction
    exact loop_leaves message conjunctions .OR disjunction

end Throwing

section Contract
variable (stod : Str → Except NumberError Double)

/-- `Selector::parse`. The tokenizer may throw before there is a token. -/
def parse (expression : Str) : Except Thrown EvalFn :=
  if expression = [] then .ok fun _ => .bool true
  else match tokenize expression with
    | ([], some message) => .error (invalidSelector message)
    | (ts, lexical) => parseExpression stod lexical ts

/-- It throws the one exception it may throw, and takes no text with a literal left open. -/
def KeepsContract (expression : Str) : Prop :=
  ((∃ f, parse stod expression = .ok f) ∨
    ∃ message, parse stod expression = .error (invalidSelector message)) ∧
  ∀ f, parse stod expression = .ok f → ¬ LeftOpen expression

/-- A number that cannot be converted stands where an expression could go on. -/
def ReachesUnreadable (ts : List Token) : Prop :=
  ∃ us t ws, ts = us ++ t :: ws ∧ raises stod t ≠ none ∧ ∃ vs e, Derives .or_expr (us ++ t :: vs) e

variable {stod}

theorem parse_throws {lexical : Option Str} {ts : List Token}
    (unreadable : ReachesUnreadable stod ts) :
    ∃ error, parseExpression stod lexical ts = .error (.number error) := by
  obtain ⟨us, t, ws, rfl, bad, vs, e, d⟩ := unreadable
  rcases first_raising stod us with quiet | ⟨xs, u, ys, thrown, rfl, quiet, raised⟩
  · obtain ⟨thrown, raised⟩ := Option.ne_none_iff_exists'.mp bad
    obtain ⟨error, rfl⟩ := raises_number raised
    exact ⟨error, parse_blocks d quiet raised⟩
  · obtain ⟨error, rfl⟩ := raises_number raised
    rw [List.append_assoc, List.cons_append] at d ⊢
    exact ⟨error, parse_blocks d quiet raised⟩

theorem parse_whole {message : Str} {ts : List Token} (some_ : ts ≠ []) (f : EvalFn) :
    parseExpression stod (some message) ts ≠ .ok f := by
  intro done
  unfold parseExpression at done
  cases read : parseOr stod (some message) (ts.length + 1) ts with
  | error e =>
    rw [read] at done
    cases done
  | ok r =>
    obtain ⟨g, rest⟩ := r
    have left : rest ≠ [] := parseOr_leaves stod message (ts.length + 1) ts rest g some_ read
    obtain ⟨t, rest, rfl⟩ := List.exists_cons_of_ne_nil left
    rw [read] at done
    cases done

theorem parse_cases {expression : Str} (filled : expression ≠ []) :
    (∃ message, parse stod expression = .error (invalidSelector message)) ∧
      (tokenize expression).1 = [] ∧ (tokenize expression).2 ≠ none ∨
    parse stod expression = parseExpression stod (tokenize expression).2 (tokenize expression).1 ∧
      ((tokenize expression).2 = none ∨ (tokenize expression).1 ≠ []) := by
  unfold parse
  rw [if_neg filled]
  match tokenize expression with
  | ([], some message) => exact .inl ⟨⟨message, rfl⟩, rfl, by simp⟩
  | ([], none) => exact .inr ⟨rfl, .inl rfl⟩
  | (t :: ts, lexical) => exact .inr ⟨rfl, .inr (by simp)⟩

/-- What `parse` takes: the empty text, or one whose tokens are an expression with numbers that
    can be converted. -/
theorem parse_takes (expression : Str) : (∃ f, parse stod expression = .ok f) ↔
    expression = [] ∨ (tokenize expression).2 = none ∧
      (∃ e, Derives .or_expr (tokenize expression).1 e) ∧
      ∀ t ∈ (tokenize expression).1, raises stod t = none := by
  by_cases empty : expression = []
  · refine iff_of_true ⟨fun _ => .bool true, ?_⟩ (.inl empty)
    rw [parse, if_pos empty]
  rcases @parse_cases stod _ empty with ⟨⟨message, refused⟩, _, stops⟩ | ⟨same, open_⟩
  · rw [refused]
    constructor
    · rintro ⟨f, done⟩
      cases done
    · rintro (nothing | ⟨whole, _⟩)
      · exact absurd nothing empty
      · exact absurd whole stops
  rw [same]
  constructor
  · rintro ⟨f, done⟩
    have whole : (tokenize expression).2 = none := by
      cases lexical : (tokenize expression).2 with
      | none => rfl
      | some message =>
        rw [lexical] at done open_
        exact absurd done (parse_whole (open_.resolve_left (by simp)) f)
    obtain ⟨⟨e, d, _⟩, quiet⟩ := parse_sound done
    exact .inr ⟨whole, ⟨e, d⟩, quiet⟩
  · rintro (nothing | ⟨whole, ⟨e, d⟩, quiet⟩)
    · exact absurd nothing empty
    · rw [whole]
      exact ⟨_, parse_complete d quiet⟩

/-- What `parse` throws: the exception of its contract, or what a conversion throws. -/
theorem parse_refuses {expression : Str} {thrown : Thrown}
    (failed : parse stod expression = .error thrown) :
    (∃ message, thrown = invalidSelector message) ∨
      ReachesUnreadable stod (tokenize expression).1 := by
  by_cases empty : expression = []
  · rw [parse, if_pos empty] at failed
    cases failed
  rcases @parse_cases stod _ empty with ⟨⟨message, refused⟩, _, _⟩ | ⟨same, _⟩
  · rw [refused] at failed
    exact .inl ⟨message, (Except.error.inj failed).symm⟩
  · rw [same] at failed
    rcases parse_fails failed with refused | ⟨us, t, ws, cut, raised, vs, e, d⟩
    · exact .inl refused
    · refine .inr ⟨us, t, ws, cut, ?_, vs, e, d⟩
      rw [raised]
      exact Option.some_ne_none _

theorem unreadable_filled {expression : Str}
    (unreadable : ReachesUnreadable stod (tokenize expression).1) : expression ≠ [] := by
  rintro rfl
  obtain ⟨us, t, ws, cut, _⟩ := unreadable
  rw [tokenize_ends next_end rfl] at cut
  simp at cut

theorem parse_unreadable {expression : Str}
    (unreadable : ReachesUnreadable stod (tokenize expression).1) :
    ∃ error, parse stod expression = .error (.number error) := by
  rcases @parse_cases stod _ (unreadable_filled unreadable) with ⟨_, none_, _⟩ | ⟨same, _⟩
  · obtain ⟨us, t, ws, cut, _⟩ := unreadable
    rw [none_] at cut
    simp at cut
  · rw [same]
    exact parse_throws unreadable

theorem unreadable_breaks {expression : Str}
    (unreadable : ReachesUnreadable stod (tokenize expression).1) : ¬ KeepsContract stod expression := by
  rintro ⟨settles, _⟩
  obtain ⟨error, thrown⟩ := parse_unreadable unreadable
  rw [thrown] at settles
  rcases settles with ⟨f, done⟩ | ⟨message, refused⟩
  · cases done
  · cases refused

theorem leftOpen_filled {expression : Str} (open_ : LeftOpen expression) : expression ≠ [] := by
  intro empty
  induction open_ with
  | here first =>
    rw [empty] at first
    cases first
  | later read _ ih =>
    rw [empty, next_end] at read
    cases read
    exact ih rfl

/-- The contract is kept exactly where no number that cannot be converted is reached, and no
    literal is left open behind what is otherwise an expression. -/
theorem keeps_contract_iff (stod : Str → Except NumberError Double) (expression : Str) :
    KeepsContract stod expression ↔ ¬ ReachesUnreadable stod (tokenize expression).1 ∧
      ¬ (LeftOpen expression ∧ (tokenize expression).2 = none ∧
        ∃ e, Derives .or_expr (tokenize expression).1 e) := by
  constructor
  · intro keeps
    have readable : ¬ ReachesUnreadable stod (tokenize expression).1 :=
      fun unreadable => unreadable_breaks unreadable keeps
    refine ⟨readable, ?_⟩
    rintro ⟨open_, whole, e, d⟩
    have quiet : ∀ t ∈ (tokenize expression).1, raises stod t = none := by
      intro t member
      by_contra bad
      obtain ⟨us, ws, cut⟩ := List.append_of_mem member
      rw [cut] at d
      exact readable ⟨us, t, ws, cut, bad, ws, e, d⟩
    obtain ⟨f, done⟩ := (parse_takes expression).mpr (.inr ⟨whole, ⟨e, d⟩, quiet⟩)
    exact keeps.2 f done open_
  · rintro ⟨readable, closed⟩
    constructor
    · cases parsed : parse stod expression with
      | ok f => exact .inl ⟨f, rfl⟩
      | error thrown =>
        obtain ⟨message, rfl⟩ := (parse_refuses parsed).resolve_right readable
        exact .inr ⟨message, rfl⟩
    · intro f done open_
      rcases (parse_takes expression).mp ⟨f, done⟩ with empty | ⟨whole, derivable, _⟩
      · exact leftOpen_filled open_ empty
      · exact closed ⟨open_, whole, derivable⟩

def nines : Str := List.replicate 20 (byte '9')

theorem nines_unreadable : ReachesUnreadable readDouble (tokenize nines).1 := by
  have read : next nines = .ok (⟨.INT_LIT, nines⟩, []) := rfl
  rw [tokenize_goes read (by simp), tokenize_ends next_end rfl]
  exact ⟨[], ⟨.INT_LIT, nines⟩, [], rfl, by decide, [], _,
    loosen_to 0 (k := 4) (@Derives.int ⟨.INT_LIT, nines⟩ rfl)⟩

def unclosed : Str := str "name = 'abc".toList

def unclosedTokens : List Token :=
  [⟨.IDENT, str "name".toList⟩, word .EQ "=", ⟨.STRING, str "abc".toList⟩]

theorem unclosed_first : next unclosed = .ok (⟨.IDENT, str "name".toList⟩, str " = 'abc".toList) := rfl

theorem unclosed_second : next (str " = 'abc".toList) = .ok (word .EQ "=", str " 'abc".toList) := rfl

theorem unclosed_leftOpen : LeftOpen unclosed :=
  .later unclosed_first (.later unclosed_second (@LeftOpen.here _ (str "abc".toList) rfl))

theorem unclosed_tokens : tokenize unclosed = (unclosedTokens, none) := by
  have third : next (str " 'abc".toList) = .ok (⟨.STRING, str "abc".toList⟩, []) := rfl
  rw [tokenize_goes unclosed_first (by decide), tokenize_goes unclosed_second (by decide),
    tokenize_goes third (by decide), tokenize_ends next_end rfl]
  rfl

/-- A number that no int64 holds is out of range, and a literal that no quote closes is taken. -/
theorem contract_broken : ¬ KeepsContract readDouble nines ∧ ¬ KeepsContract readDouble unclosed := by
  constructor
  · exact unreadable_breaks nines_unreadable
  · rintro ⟨_, closed⟩
    have d : Derives .or_expr unclosedTokens
        (.compare .EQ (.ident (str "name".toList)) (.string (str "abc".toList))) :=
      loosen_to 0 (k := 3) (@Derives.compare [⟨.IDENT, str "name".toList⟩]
        [⟨.STRING, str "abc".toList⟩] _ _ .EQ _ (.ident rfl) rfl (.string rfl))
    have quiet : ∀ t ∈ unclosedTokens, raises readDouble t = none := by decide
    obtain ⟨f, done⟩ := (@parse_takes readDouble unclosed).mpr
      (.inr (by rw [unclosed_tokens]; exact ⟨rfl, ⟨_, d⟩, quiet⟩))
    exact closed f done unclosed_leftOpen

end Contract
end TinyMqSelectorErrors
