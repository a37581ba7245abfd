import TinyMq.Broker.SelectorErrors
import Mathlib.Data.List.TakeWhile

/-!
Selectors as texts: what the tokenizer returns is well formed, every tree is written as a text
that `Selector::parse` reads back, and every text that it takes means what its tree means.
-/
namespace TinyMqSelectorTexts
open Doubles AssocLists TinyMqMessage TinyMqWireFormat TinyMqSelector TinyMqSelectorGrammar
open TinyMqSelectorReading TinyMqSelectorParsing TinyMqSelectorTokens TinyMqSelectorErrors

section Leaves

mutual

/-- The tokens of a tree whose text says more than their type. -/
def leaves : Expr → List Token
  | .null => []
  | .bool _ => []
  | .string text => [⟨.STRING, text⟩]
  | .int text => [⟨.INT_LIT, text⟩]
  | .float text => [⟨.FLOAT_LIT, text⟩]
  | .ident name => [⟨.IDENT, name⟩]
  | .compare _ l r => leaves l ++ leaves r
  | .isNull l _ => leaves l
  | .between l lo hi _ => leaves l ++ leaves lo ++ leaves hi
  | .oneOf l item items _ => leaves l ++ leaves item ++ leavesItems items
  | .like l pattern _ => leaves l ++ [⟨.STRING, pattern⟩]
  | .not e => leaves e
  | .and l r => leaves l ++ leaves r
  | .or l r => leaves l ++ leaves r

def leavesItems : List Expr → List Token
  | [] => []
  | e :: es => leaves e ++ leavesItems es

end

/-- The tokens whose type says everything, as `print` writes them. -/
def marks : List Token := symbols ++ keywords.map fun k => ⟨k.2, k.1⟩

theorem marks_wellFormed {t : Token} (member : t ∈ marks) : WellFormed t := by
  rcases List.mem_append.mp member with symbol | keyword
  · exact .symbol symbol
  · obtain ⟨k, inside, rfl⟩ := List.mem_map.mp keyword
    have upper : ∀ k ∈ keywords, k.1.map toupper = k.1 := by decide +kernel
    exact .keyword inside (upper k inside)

theorem marks_quiet (stod : Str → Except NumberError Double) {t : Token} (member : t ∈ marks) :
    raises stod t = none := by
  have words : ∀ t ∈ marks, t.type ≠ .INT_LIT ∧ t.type ≠ .FLOAT_LIT := by decide
  obtain ⟨int, float⟩ := words t member
  unfold raises
  split
  · exact absurd ‹_› int
  · exact absurd ‹_› float
  · rfl

section Printed
variable {P : Token → Prop} (fixed : ∀ t ∈ marks, P t)
include fixed

theorem enclose_all {e : Expr} {ts : List Token} (all : ∀ t ∈ ts, P t) (least : Nat) :
    ∀ t ∈ enclose least e ts, P t := by
  have opens : P (word .LPAREN "(") := fixed _ (by decide)
  have closes : P (word .RPAREN ")") := fixed _ (by decide)
  unfold enclose
  split
  · simp only [List.forall_mem_cons, List.forall_mem_append]
    exact ⟨opens, all, closes, by simp⟩
  · exact all

theorem printNot_all (negated : Bool) : ∀ t ∈ printNot negated, P t := by
  have not : P (word .NOT "NOT") := fixed _ (by decide)
  cases negated with
  | true => simpa [printNot] using not
  | false => simp [printNot]

theorem printItems_all {items : List Expr} (each : ∀ e ∈ items, ∀ t ∈ e.print, P t) :
    ∀ t ∈ printItems items, P t := by
  have comma : P (word .COMMA ",") := fixed _ (by decide)
  induction items with
  | nil => simp [printItems]
  | cons e es ih =>
    rw [printItems, List.forall_mem_cons, List.forall_mem_append]
    exact ⟨comma, enclose_all fixed (each e List.mem_cons_self) 4,
      ih fun e' later => each e' (List.mem_cons_of_mem e later)⟩

theorem print_all (e : Expr) (all : ∀ t ∈ leaves e, P t) : ∀ t ∈ e.print, P t := by
  have relation : ∀ op : Relation, P op.token := by
    intro op
    apply fixed
    cases op <;> decide
  induction e using Expr.induction with
  | null => simpa [Expr.print] using fixed _ (by decide)
  | bool v => cases v <;> simpa [Expr.print] using fixed _ (by decide)
  | string text => exact all
  | int text => exact all
  | float text => exact all
  | ident name => exact all
  | compare op l r left right =>
    rw [leaves, List.forall_mem_append] at all
    rw [Expr.print, List.forall_mem_append, List.forall_mem_cons]
    exact ⟨enclose_all fixed (left all.1) 4, relation op, enclose_all fixed (right all.2) 4⟩
  | isNull l negated left =>
    rw [Expr.print, List.forall_mem_append, List.forall_mem_cons, List.forall_mem_append,
      List.forall_mem_singleton]
    exact ⟨enclose_all fixed (left all) 4, fixed _ (by decide), printNot_all fixed negated,
      fixed _ (by decide)⟩
  | between l lo hi negated left low high =>
    rw [leaves, List.forall_mem_append, List.forall_mem_append] at all
    obtain ⟨⟨first, second⟩, third⟩ := all
    rw [Expr.print, List.forall_mem_append, List.forall_mem_append, List.forall_mem_cons,
      List.forall_mem_append, List.forall_mem_cons]
    exact ⟨enclose_all fixed (left first) 4, printNot_all fixed negated, fixed _ (by decide),
      enclose_all fixed (low second) 4, fixed _ (by decide), enclose_all fixed (high third) 4⟩
  | oneOf l item items negated left first each =>
    rw [leaves, List.forall_mem_append, List.forall_mem_append] at all
    obtain ⟨⟨operand, item_⟩, others⟩ := all
    have later : ∀ e ∈ items, ∀ t ∈ leaves e, P t := by
      clear each
      induction items with
      | nil => simp
      | cons e es ih =>
        rw [leavesItems, List.forall_mem_append] at others
        rw [List.forall_mem_cons]
        exact ⟨others.1, ih others.2⟩
    rw [Expr.print, List.forall_mem_append, List.forall_mem_append, List.forall_mem_cons,
      List.forall_mem_cons, List.forall_mem_append, List.forall_mem_append, List.forall_mem_singleton]
    exact ⟨enclose_all fixed (left operand) 4, printNot_all fixed negated, fixed _ (by decide),
      fixed _ (by decide), enclose_all fixed (first item_) 4,
      printItems_all fixed (fun e member => each e member (later e member)), fixed _ (by decide)⟩
  | like l pattern negated left =>
    rw [leaves, List.forall_mem_append, List.forall_mem_singleton] at all
    rw [Expr.print, List.forall_mem_append, List.forall_mem_append, List.forall_mem_cons,
      List.forall_mem_singleton]
    exact ⟨enclose_all fixed (left all.1) 4, printNot_all fixed negated, fixed _ (by decide), all.2⟩
  | not e inner =>
    rw [Expr.print, List.forall_mem_cons]
    exact ⟨fixed _ (by decide), enclose_all fixed (inner all) 2⟩
  | and l r left right =>
    rw [leaves, List.forall_mem_append] at all
    rw [Expr.print, List.forall_mem_append, List.forall_mem_cons]
    exact ⟨enclose_all fixed (left all.1) 1, fixed _ (by decide), enclose_all fixed (right all.2) 2⟩
  | or l r left right =>
    rw [leaves, List.forall_mem_append] at all
    rw [Expr.print, List.forall_mem_append, List.forall_mem_cons]
    exact ⟨enclose_all fixed (left all.1) 0, fixed _ (by decide), enclose_all fixed (right all.2) 1⟩

end Printed

theorem leavesItems_append (a b : List Expr) :
    leavesItems (a ++ b) = leavesItems a ++ leavesItems b := by
  induction a with
  | nil => rfl
  | cons e es ih =>
    rw [List.cons_append, leavesItems, leavesItems, ih, List.append_assoc]

/-- The leaves that a nonterminal knows from before. -/
def held : Nonterminal → List Token
  | .or_rest l => leaves l
  | .and_rest l => leaves l
  | .in_rest l item items _ => leaves l ++ leaves item ++ leavesItems items
  | _ => []

theorem derives_all {P : Token → Prop} {nt : Nonterminal} {ts : List Token} {e : Expr}
    (d : Derives nt ts e) (before : ∀ t ∈ held nt, P t) (all : ∀ t ∈ ts, P t) :
    ∀ t ∈ leaves e, P t := by
  have nothing : ∀ {nt}, held nt = [] → ∀ t ∈ held nt, P t := by
    intro nt empty t member
    rw [empty] at member
    cases member
  induction d with
  | or_expr _ _ first rest =>
    rw [List.forall_mem_append] at all
    exact rest (first (nothing rfl) all.1) all.2
  | or_end => exact before
  | or_more _ _ _ item rest =>
    rw [List.forall_mem_cons, List.forall_mem_append] at all
    apply rest _ all.2.2
    rw [held, leaves, List.forall_mem_append]
    exact ⟨before, item (nothing rfl) all.2.1⟩
  | and_expr _ _ first rest =>
    rw [List.forall_mem_append] at all
    exact rest (first (nothing rfl) all.1) all.2
  | and_end => exact before
  | and_more _ _ _ item rest =>
    rw [List.forall_mem_cons, List.forall_mem_append] at all
    apply rest _ all.2.2
    rw [held, leaves, List.forall_mem_append]
    exact ⟨before, item (nothing rfl) all.2.1⟩
  | not_not _ _ inner =>
    rw [List.forall_mem_cons] at all
    exact inner (nothing rfl) all.2
  | not_comparison _ inner => exact inner (nothing rfl) all
  | bare _ inner => exact inner (nothing rfl) all
  | is_null _ _ _ _ left =>
    rw [List.forall_mem_append] at all
    exact left (nothing rfl) all.1
  | between _ _ _ _ _ _ left low high =>
    simp only [List.forall_mem_append, List.forall_mem_cons] at all
    obtain ⟨operand, _, _, least, _, greatest⟩ := all
    rw [leaves, List.forall_mem_append, List.forall_mem_append]
    exact ⟨⟨left (nothing rfl) operand, low (nothing rfl) least⟩, high (nothing rfl) greatest⟩
  | one_of _ _ _ _ _ _ _ left first rest =>
    simp only [List.forall_mem_append, List.forall_mem_cons] at all
    obtain ⟨operand, _, _, _, item, others, _⟩ := all
    apply rest _ others
    rw [held, leavesItems, List.append_nil, List.forall_mem_append]
    exact ⟨left (nothing rfl) operand, first (nothing rfl) item⟩
  | in_end => exact before
  | in_more _ _ _ item rest =>
    rw [List.forall_mem_cons, List.forall_mem_append] at all
    apply rest _ all.2.2
    rw [held, List.forall_mem_append] at before
    rw [held, leavesItems_append, leavesItems, leavesItems, List.append_nil, ← List.append_assoc,
      List.forall_mem_append, List.forall_mem_append]
    exact ⟨before, item (nothing rfl) all.2.1⟩
  | like _ _ _ good left =>
    simp only [List.forall_mem_append, List.forall_mem_cons] at all
    obtain ⟨operand, _, _, pattern, _⟩ := all
    rw [leaves, List.forall_mem_append, List.forall_mem_singleton, ← good]
    exact ⟨left (nothing rfl) operand, pattern⟩
  | compare _ _ _ left right =>
    rw [List.forall_mem_append, List.forall_mem_cons] at all
    rw [leaves, List.forall_mem_append]
    exact ⟨left (nothing rfl) all.1, right (nothing rfl) all.2.2⟩
  | parens _ _ _ inner =>
    rw [List.forall_mem_cons, List.forall_mem_append] at all
    exact inner (nothing rfl) all.2.1
  | null => exact @nothing .primary rfl
  | true_ => exact @nothing .primary rfl
  | false_ => exact @nothing .primary rfl
  | string good => rwa [leaves, ← good]
  | int good => rwa [leaves, ← good]
  | float good => rwa [leaves, ← good]
  | ident good => rwa [leaves, ← good]

theorem leaves_all {P : Token → Prop} (e : Expr) (fixed : ∀ t ∈ marks, P t) :
    (∀ t ∈ e.print, P t) ↔ ∀ t ∈ leaves e, P t := by
  constructor
  · exact derives_all (print_whole e) (by simp [held])
  · exact print_all fixed e

end Leaves

section Accepted

theorem readFraction_wellFormed {sign digits : Str} (signed : Sign sign) (some_ : Digits digits)
    (input : Str) : WellFormed (readFraction (sign ++ digits) input).1 := by
  cases input with
  | nil => exact .int signed some_
  | cons c input =>
    rw [readFraction]
    split
    · rename_i point
      rw [point]
      exact .float signed some_ fun d member => List.mem_takeWhile_imp member
    · exact .int signed some_

theorem readNumber_wellFormed {c : UInt8} {input : Str}
    (number : isDigit c = true ∨ c = byte '-' ∧ input.head?.any isDigit = true) :
    WellFormed (readNumber (c :: input)).1 := by
  unfold readNumber
  by_cases signed : c = byte '-'
  · have digits : Digits (input.takeWhile isDigit) := by
      refine ⟨?_, fun d member => List.mem_takeWhile_imp member⟩
      have first : input.head?.any isDigit = true := by
        rcases number with digit | ⟨_, behind⟩
        · rw [signed] at digit
          exact absurd digit (by decide)
        · exact behind
      cases input with
      | nil => cases first
      | cons d input =>
        rw [List.head?_cons, Option.any_some] at first
        rw [List.takeWhile_cons_of_pos first]
        exact List.cons_ne_nil _ _
    simp only [List.head?_cons, signed, if_true, List.tail_cons]
    exact readFraction_wellFormed (.inr rfl) digits _
  · have digit : isDigit c = true := number.resolve_right fun other => signed other.1
    simp only [List.head?_cons, Option.some.injEq, signed, if_false]
    rw [List.takeWhile_cons_of_pos digit]
    have digits : Digits (c :: input.takeWhile isDigit) := by
      refine ⟨List.cons_ne_nil _ _, ?_⟩
      rw [List.forall_mem_cons]
      exact ⟨digit, fun d member => List.mem_takeWhile_imp member⟩
    exact readFraction_wellFormed (.inl rfl) digits _

theorem readIdent_wellFormed {c : UInt8} {input : Str} (letter : isalpha c = true ∨ c = byte '_') :
    WellFormed (readIdent (c :: input)).1 := by
  obtain ⟨_, _, _, _, here⟩ := alpha_first c letter
  unfold readIdent
  rw [List.takeWhile_cons_of_pos here]
  dsimp only
  cases known : get keywords ((c :: input.takeWhile isIdent).map toupper) with
  | some type => exact .keyword (get_mem known) rfl
  | none =>
    apply WellFormed.ident letter
    · exact fun d member => List.mem_takeWhile_imp member
    · intro member
      obtain ⟨k, inside, same⟩ := List.mem_map.mp member
      rw [← same] at known
      exact get_ne_none inside known

theorem next_wellFormed {input rest : Str} {t : Token} (read : next input = .ok (t, rest))
    (more : t.type ≠ .EOF_TOKEN) : WellFormed t := by
  have symbol : ∀ {u : Token} {rest' : Str},
      (.ok (u, rest') : Except Str (Token × Str)) = .ok (t, rest) → u ∈ symbols → WellFormed t := by
    intro u rest' done member
    cases done
    exact .symbol member
  unfold next at read
  split at read
  · cases read
    exact absurd rfl more
  · rename_i c behind first
    by_cases quoted : c = quote
    · rw [if_pos quoted] at read
      cases read
      exact .string _
    rw [if_neg quoted] at read
    by_cases number : (isDigit c || c = byte '-' && behind.head?.any isDigit) = true
    · rw [if_pos number] at read
      obtain rfl := congrArg Prod.fst (Except.ok.inj read)
      apply readNumber_wellFormed
      simpa using number
    rw [if_neg number] at read
    by_cases letter : (isalpha c || c = byte '_') = true
    · rw [if_pos letter] at read
      obtain rfl := congrArg Prod.fst (Except.ok.inj read)
      exact readIdent_wellFormed (by simpa using letter)
    rw [if_neg letter] at read
    split at read
    · exact symbol read (by decide)
    split at read
    · exact symbol read (by decide)
    split at read
    · exact symbol read (by decide)
    split at read
    · exact symbol read (by decide)
    split at read
    · split at read
      · exact symbol read (by decide)
      · split at read
        · exact symbol read (by decide)
        · exact symbol read (by decide)
    · split at read
      · split at read
        · exact symbol read (by decide)
        · exact symbol read (by decide)
      · cases read

theorem tokenize_wellFormed (input : Str) : ∀ t ∈ (tokenize input).1, WellFormed t := by
  induction h : input.length using Nat.strongRecOn generalizing input with
  | ind n ih =>
    cases read : next input with
    | error message => simp [tokenize_throws read]
    | ok r =>
      obtain ⟨t, rest⟩ := r
      by_cases last : t.type = .EOF_TOKEN
      · simp [tokenize_ends read last]
      · rw [tokenize_goes read last, List.forall_mem_cons]
        have shorter := next_shorter read last
        exact ⟨next_wellFormed read last, ih rest.length (by omega) rest rfl⟩

end Accepted

section Canonical
variable {stod : Str → Except NumberError Double}

/-- A tree as a text: its tokens, with the parentheses that they need, apart by one blank. -/
def text (e : Expr) : Str := rendering e.print

theorem text_tokens {e : Expr} (legal : ∀ t ∈ leaves e, WellFormed t) :
    tokenize (text e) = (e.print, none) :=
  tokenize_rendering _ ((leaves_all e fun _ => marks_wellFormed).mpr legal)

theorem text_filled {e : Expr} (legal : ∀ t ∈ leaves e, WellFormed t) : text e ≠ [] := by
  intro empty
  have tokens := text_tokens legal
  rw [empty, tokenize_ends next_end rfl] at tokens
  have nothing : e.print = [] := (congrArg Prod.fst tokens).symm
  cases e <;> simp [Expr.print] at nothing

theorem parse_text {e : Expr} (legal : ∀ t ∈ leaves e, WellFormed t) :
    parse stod (text e) = parseExpression stod none e.print := by
  rcases @parse_cases stod _ (text_filled legal) with ⟨_, _, stops⟩ | ⟨same, _⟩
  · rw [text_tokens legal] at stops
    exact absurd rfl stops
  · rw [same, text_tokens legal]

/-- A tree is read back from its text just if each of its numbers can be converted. -/
theorem text_reads_back {e : Expr} (legal : ∀ t ∈ leaves e, WellFormed t) :
    parse stod (text e) = .ok (e.eval stod) ↔ ∀ t ∈ leaves e, raises stod t = none := by
  rw [parse_text legal, ← leaves_all e fun _ => marks_quiet stod]
  constructor
  · intro parsed
    exact (parse_sound parsed).2
  · exact parse_complete (print_whole e)

def nested : Expr :=
  .and (.not (.or (.ident [97]) (.ident [98]))) (.compare .EQ (.ident [99]) (.int [45, 49]))

theorem nested_legal : ∀ t ∈ leaves nested, WellFormed t := by
  have letter : ∀ c ∈ [97, 98, 99], WellFormed ⟨.IDENT, [c]⟩ := by
    intro c member
    apply WellFormed.ident
    · revert c
      decide +kernel
    · simp
    · revert c
      decide +kernel
  simp only [nested, leaves, List.cons_append, List.nil_append, List.forall_mem_cons]
  refine ⟨letter 97 (by decide), letter 98 (by decide), letter 99 (by decide), ?_, by simp⟩
  exact @WellFormed.int [45] [49] (.inr rfl) ⟨by decide, by decide +kernel⟩

example : text nested = str "NOT ( a OR b ) AND c = -1".toList := by decide +kernel

theorem text_reads_back_nested :
    (∀ t ∈ leaves nested, WellFormed t) ∧
      (parse readDouble (text nested) = .ok (nested.eval readDouble) ↔
        ∀ t ∈ leaves nested, raises readDouble t = none) :=
  ⟨nested_legal, text_reads_back nested_legal⟩

/-- A text that is taken is an expression, and every tree of it has the value of the selector
    and a text that means the same. -/
theorem taken_text {expression : Str} {f : EvalFn} (filled : expression ≠ [])
    (done : parse stod expression = .ok f) :
    (∃ e, Derives .or_expr (tokenize expression).1 e) ∧
      ∀ e, Derives .or_expr (tokenize expression).1 e →
        f = e.eval stod ∧ parse stod (text e) = .ok f := by
  obtain ⟨whole, derived, quiet⟩ := ((parse_takes expression).mp ⟨f, done⟩).resolve_left filled
  refine ⟨derived, ?_⟩
  intro e d
  have same : f = e.eval stod := by
    rcases @parse_cases stod _ filled with ⟨_, _, stops⟩ | ⟨read, _⟩
    · exact absurd whole stops
    · rw [read, whole, parse_complete d quiet] at done
      exact (Except.ok.inj done).symm
  have legal : ∀ t ∈ leaves e, WellFormed t :=
    derives_all d (by simp [held]) (tokenize_wellFormed expression)
  refine ⟨same, ?_⟩
  rw [same, parse_text legal]
  apply parse_complete (print_whole e)
  apply (leaves_all e fun _ => marks_quiet stod).mpr
  exact derives_all d (by simp [held]) quiet

theorem taken_text_nested :
    parse readDouble (text nested) = .ok (nested.eval readDouble) ∧
      (∃ e, Derives .or_expr (tokenize (text nested)).1 e) ∧
      ∀ e, Derives .or_expr (tokenize (text nested)).1 e →
        nested.eval readDouble = e.eval readDouble ∧
          parse readDouble (text e) = .ok (nested.eval readDouble) := by
  have done : parse readDouble (text nested) = .ok (nested.eval readDouble) := by
    rw [parse_text nested_legal]
    apply parse_complete (print_whole nested)
    decide +kernel
  exact ⟨done, taken_text (text_filled nested_legal) done⟩

end Canonical

end TinyMqSelectorTexts
