import TinyMq.Broker.SelectorParsing

/-!
What a selector means in the three-valued logic of SQL, and when the evaluator computes
that: a comparison with a NULL operand is UNKNOWN in SQL, and true or false in the code.
-/
namespace TinyMqSelectorLogic
open Doubles TinyMqMessage TinyMqWireFormat TinyMqSelector TinyMqSelectorGrammar
open TinyMqSelectorReading TinyMqSelectorParsing

section Truth

inductive Truth where
  | FALSE
  | UNKNOWN
  | TRUE
  deriving DecidableEq

def Truth.rank : Truth → Nat
  | FALSE => 0
  | UNKNOWN => 1
  | TRUE => 2

/-- Kleene's connectives: the lesser, the greater and the opposite value. -/
def Truth.and (a b : Truth) : Truth := if a.rank ≤ b.rank then a else b
def Truth.or (a b : Truth) : Truth := if a.rank ≤ b.rank then b else a
def Truth.not : Truth → Truth
  | FALSE => TRUE
  | UNKNOWN => UNKNOWN
  | TRUE => FALSE

/-- What is no truth value counts as UNKNOWN. -/
def truth : SelectorValue → Truth
  | .bool true => .TRUE
  | .bool false => .FALSE
  | _ => .UNKNOWN

def Truth.value : Truth → SelectorValue
  | TRUE => .bool true
  | FALSE => .bool false
  | UNKNOWN => .null

theorem negation_kleene (e : EvalFn) (msg : Properties) :
    negation e msg = (truth (e msg)).not.value := by
  unfold negation
  rcases e msg with _ | v | _ | _ | _
  · rfl
  · cases v <;> rfl
  · rfl
  · rfl
  · rfl

theorem conjunction_kleene (l r : EvalFn) (msg : Properties) :
    conjunction l r msg = ((truth (l msg)).and (truth (r msg))).value := by
  unfold conjunction
  rcases l msg with _ | (_ | _) | _ | _ | _ <;> rcases r msg with _ | (_ | _) | _ | _ | _ <;> rfl

theorem disjunction_kleene (l r : EvalFn) (msg : Properties) :
    disjunction l r msg = ((truth (l msg)).or (truth (r msg))).value := by
  unfold disjunction
  rcases l msg with _ | (_ | _) | _ | _ | _ <;> rcases r msg with _ | (_ | _) | _ | _ | _ <;> rfl

end Truth

section Meaning
variable (stod : Str → Except NumberError Double) (msg : Properties)

def holds (op : Relation) (a b : SelectorValue) : Bool :=
  match op with
  | .EQ => selEQ a b
  | .NEQ => !selEQ a b
  | .LT => selLT a b
  | .LTE => selLTE a b
  | .GT => selGT a b
  | .GTE => selGTE a b

/-- UNKNOWN where one of the operands is NULL. -/
def knowing (operands : List SelectorValue) (result : Bool) : SelectorValue :=
  if .null ∈ operands then .null else .bool result

mutual

/-- The value of a tree in the logic of SQL. -/
@[simp] def denote : Expr → SelectorValue
  | .null => .null
  | .bool v => .bool v
  | .string text => .string text
  | .int text => numeral .int64 (stoll text) msg
  | .float text => numeral .double (stod text) msg
  | .ident name => extractProperty msg name
  | .compare op l r => knowing [denote l, denote r] (holds op (denote l) (denote r))
  | .isNull l negated => .bool (negated ^^ decide (denote l = .null))
  | .between l lo hi negated => knowing [denote l, denote lo, denote hi]
      (negated ^^ (selGTE (denote l) (denote lo) && selLTE (denote l) (denote hi)))
  | .oneOf l item items negated => knowing [denote l]
      (negated ^^ (denote item :: denoteItems items).any fun v => selEQ (denote l) v)
  | .like l pattern negated => match denote l with
    | .string v => .bool (negated ^^ regexMatch v (likeToRegex pattern))
    | _ => .null
  | .not e => (truth (denote e)).not.value
  | .and l r => ((truth (denote l)).and (truth (denote r))).value
  | .or l r => ((truth (denote l)).or (truth (denote r))).value

def denoteItems : List Expr → List SelectorValue
  | [] => []
  | e :: es => denote e :: denoteItems es

end

mutual

/-- The tree with the code's answer in the place of every comparison and BETWEEN that has a NULL
    operand, from the inside out. -/
def answered : Expr → Expr
  | .compare op l r =>
    if .null ∈ [denote stod msg (answered l), denote stod msg (answered r)] then
      .bool (op = .NEQ)
    else .compare op (answered l) (answered r)
  | .isNull l negated => .isNull (answered l) negated
  | .between l lo hi negated =>
    if .null ∈ [denote stod msg (answered l), denote stod msg (answered lo),
        denote stod msg (answered hi)] then .bool negated
    else .between (answered l) (answered lo) (answered hi) negated
  | .oneOf l item items negated =>
    .oneOf (answered l) (answered item) (answeredItems items) negated
  | .like l pattern negated => .like (answered l) pattern negated
  | .not e => .not (answered e)
  | .and l r => .and (answered l) (answered r)
  | .or l r => .or (answered l) (answered r)
  | e => e

def answeredItems : List Expr → List Expr
  | [] => []
  | e :: es => answered e :: answeredItems es

end

def isValue : Expr → Bool
  | .null | .bool _ | .string _ | .int _ | .float _ | .ident _ => true
  | _ => false

/-- Only literals and properties are compared. -/
def Plain : Expr → Prop
  | .compare _ l r => isValue l ∧ isValue r
  | .isNull l _ | .like l _ _ => isValue l
  | .between l lo hi _ => isValue l ∧ isValue lo ∧ isValue hi
  | .oneOf l item items _ => isValue l ∧ isValue item ∧ ∀ e ∈ items, isValue e
  | .not e => Plain e
  | .and l r | .or l r => Plain l ∧ Plain r
  | _ => True

/-- The tree is answered with `t` where SQL does not know: a comparison with a NULL operand, and
    what the connectives pass on of it. -/
def Lies : Expr → Bool → Prop
  | .compare op l r, t => .null ∈ [denote stod msg l, denote stod msg r] ∧ t = decide (op = .NEQ)
  | .between l lo hi negated, t =>
    .null ∈ [denote stod msg l, denote stod msg lo, denote stod msg hi] ∧ t = negated
  | .not e, t => Lies e !t
  | .and l r, false => Lies l false ∧ truth (denote stod msg r) ≠ .FALSE ∨
    Lies r false ∧ truth (denote stod msg l) ≠ .FALSE
  | .and l r, true => Lies l true ∧ (Lies r true ∨ truth (denote stod msg r) = .TRUE) ∨
    Lies r true ∧ truth (denote stod msg l) = .TRUE
  | .or l r, true => Lies l true ∧ truth (denote stod msg r) ≠ .TRUE ∨
    Lies r true ∧ truth (denote stod msg l) ≠ .TRUE
  | .or l r, false => Lies l false ∧ (Lies r false ∨ truth (denote stod msg r) = .FALSE) ∨
    Lies r false ∧ truth (denote stod msg l) = .FALSE
  | _, _ => False

theorem denoteItems_map (es : List Expr) :
    denoteItems stod msg es = es.map (denote stod msg) := by
  induction es with
  | nil => rfl
  | cons e es ih => simp [denoteItems, ih]

theorem orNegated_xor (negated result : Bool) :
    orNegated negated result = .bool (negated ^^ result) := by
  cases negated <;> cases result <;> rfl

variable {stod msg}

theorem relation_holds (op : Relation) (l r : EvalFn) :
    relation op.type l r msg = .bool (holds op (l msg) (r msg)) := by
  cases op <;> rfl

theorem knowing_known {operands : List SelectorValue} (known : .null ∉ operands) (result : Bool) :
    knowing operands result = .bool result := if_neg known

theorem oneOf_knowing (l : EvalFn) (items : List EvalFn) (negated : Bool) :
    oneOf l items negated msg =
      knowing [l msg] (negated ^^ (items.map (· msg)).any fun v => selEQ (l msg) v) := by
  unfold oneOf knowing
  by_cases null : l msg = .null
  · simp [null]
  · have known : ¬ SelectorValue.null = l msg := fun same => null same.symm
    simp only [null, if_false, List.mem_singleton, known, List.any_map]
    cases found : items.any fun item => selEQ (l msg) (item msg) with
    | true =>
      have found' : (items.any ((fun v => selEQ (l msg) v) ∘ fun x => x msg)) = true := found
      simp [found']
    | false =>
      have found' : (items.any ((fun v => selEQ (l msg) v) ∘ fun x => x msg)) = false := found
      simp [found']

theorem answeredItems_map (es : List Expr) :
    answeredItems stod msg es = es.map (answered stod msg) := by
  induction es with
  | nil => rfl
  | cons e es ih => simp [answeredItems, ih]

theorem selEQ_null {a b : SelectorValue} (null : a = .null ∨ b = .null) : selEQ a b = false := by
  rcases null with rfl | rfl
  · rfl
  · cases a <;> rfl

theorem selLT_null {a b : SelectorValue} (null : a = .null ∨ b = .null) : selLT a b = false := by
  rcases null with rfl | rfl
  · rfl
  · cases a <;> rfl

theorem holds_null {op : Relation} {a b : SelectorValue} (null : .null ∈ [a, b]) :
    holds op a b = decide (op = .NEQ) := by
  have either : a = .null ∨ b = .null := by simpa [eq_comm] using null
  cases op <;>
    simp [holds, selGT, selLTE, selGTE, selEQ_null either, selLT_null either, selLT_null either.symm]

theorem between_null {a lo hi : SelectorValue} (null : .null ∈ [a, lo, hi]) :
    (selGTE a lo && selLTE a hi) = false := by
  have either : (a = .null ∨ lo = .null) ∨ a = .null ∨ hi = .null := by
    simp only [List.mem_cons, List.not_mem_nil, or_false] at null
    rcases null with same | same | same
    · exact .inl (.inl same.symm)
    · exact .inl (.inr same.symm)
    · exact .inr (.inr same.symm)
  rcases either with below | above
  · simp [selGTE, selGT, selEQ_null below, selLT_null below.symm]
  · simp [selLTE, selEQ_null above, selLT_null above]

theorem eval_answered (e : Expr) : e.eval stod msg = denote stod msg (answered stod msg e) := by
  induction e using Expr.induction with
  | null => rfl
  | bool v => rfl
  | string text => rfl
  | int text => rfl
  | float text => rfl
  | ident name => rfl
  | compare op l r left right =>
    rw [Expr.eval, relation_holds, left, right, answered]
    by_cases null : .null ∈ [denote stod msg (answered stod msg l), denote stod msg (answered stod msg r)]
    · rw [if_pos null, denote, holds_null null]
    · rw [if_neg null, denote, knowing_known null]
  | isNull l negated left =>
    rw [Expr.eval, answered, denote, nullTest, left, orNegated_xor]
  | between l lo hi negated left low high =>
    rw [Expr.eval, TinyMqSelector.between, left, low, high, orNegated_xor, answered]
    by_cases null : .null ∈ [denote stod msg (answered stod msg l),
        denote stod msg (answered stod msg lo), denote stod msg (answered stod msg hi)]
    · rw [if_pos null, denote, between_null null, Bool.xor_false]
    · rw [if_neg null, denote, knowing_known null]
  | oneOf l item items negated left first each =>
    have each' : items.map (fun e => e.eval stod msg) =
        (items.map (answered stod msg)).map (denote stod msg) := by
      rw [List.map_map]
      exact List.map_congr_left each
    rw [Expr.eval, answered, denote, oneOf_knowing, left, List.map_cons, first, evalItems_map,
      denoteItems_map, answeredItems_map, ← each', List.map_map]
    rfl
  | like l pattern negated left =>
    rw [Expr.eval, answered, denote, TinyMqSelector.like, left]
    cases denote stod msg (answered stod msg l) <;> first | rfl | exact orNegated_xor _ _
  | not e inner => rw [Expr.eval, answered, denote, negation_kleene, inner]
  | and l r left right => rw [Expr.eval, answered, denote, conjunction_kleene, left, right]
  | or l r left right => rw [Expr.eval, answered, denote, disjunction_kleene, left, right]

theorem value_eval {e : Expr} (value : isValue e = true) : e.eval stod msg = denote stod msg e := by
  cases e with
  | null | bool | string | int | float | ident => rfl
  | _ => cases value

/-- The tree is answered as SQL does, or with a truth value where SQL does not know. -/
def Told (stod : Str → Except NumberError Double) (msg : Properties) (e : Expr) : Prop :=
  (∀ t, ¬ Lies stod msg e t) ∧ e.eval stod msg = denote stod msg e ∨
    ∃ t, Lies stod msg e t ∧ ¬ Lies stod msg e (!t) ∧ denote stod msg e = .null ∧
      e.eval stod msg = .bool t

theorem told_not {e : Expr} (told : Told stod msg e) : Told stod msg (.not e) := by
  rcases told with ⟨honest, same⟩ | ⟨t, lies, only, unknown, answer⟩
  · exact .inl ⟨fun t => honest !t, by rw [Expr.eval, denote, negation_kleene, same]⟩
  · refine .inr ⟨!t, by simpa [Lies] using lies, by simpa [Lies] using only, ?_, ?_⟩
    · rw [denote, unknown]
      rfl
    · rw [Expr.eval, negation_kleene, answer]
      cases t <;> rfl

theorem told_and {l r : Expr} (left : Told stod msg l) (right : Told stod msg r) :
    Told stod msg (.and l r) := by
  unfold Told
  rw [Expr.eval, denote, conjunction_kleene]
  rcases left with ⟨honest, same⟩ | ⟨t, lies, only, unknown, answer⟩ <;>
    rcases right with ⟨honest', same'⟩ | ⟨t', lies', only', unknown', answer'⟩
  · refine .inl ⟨?_, by rw [same, same']⟩
    rintro (_ | _) <;> simp [Lies, honest, honest']
  · rw [same, unknown', answer']
    cases t' <;> cases value : truth (denote stod msg l) <;>
      simp_all [Lies, Bool.forall_bool, truth, Truth.and, Truth.rank, Truth.value]
  · rw [same', unknown, answer]
    cases t <;> cases value : truth (denote stod msg r) <;>
      simp_all [Lies, Bool.forall_bool, truth, Truth.and, Truth.rank, Truth.value]
  · rw [unknown, answer, unknown', answer']
    cases t <;> cases t' <;>
      simp_all [Lies, Bool.forall_bool, truth, Truth.and, Truth.rank, Truth.value]

theorem told_or {l r : Expr} (left : Told stod msg l) (right : Told stod msg r) :
    Told stod msg (.or l r) := by
  unfold Told
  rw [Expr.eval, denote, disjunction_kleene]
  rcases left with ⟨honest, same⟩ | ⟨t, lies, only, unknown, answer⟩ <;>
    rcases right with ⟨honest', same'⟩ | ⟨t', lies', only', unknown', answer'⟩
  · refine .inl ⟨?_, by rw [same, same']⟩
    rintro (_ | _) <;> simp [Lies, honest, honest']
  · rw [same, unknown', answer']
    cases t' <;> cases value : truth (denote stod msg l) <;>
      simp_all [Lies, Bool.forall_bool, truth, Truth.or, Truth.rank, Truth.value]
  · rw [same', unknown, answer]
    cases t <;> cases value : truth (denote stod msg r) <;>
      simp_all [Lies, Bool.forall_bool, truth, Truth.or, Truth.rank, Truth.value]
  · rw [unknown, answer, unknown', answer']
    cases t <;> cases t' <;>
      simp_all [Lies, Bool.forall_bool, truth, Truth.or, Truth.rank, Truth.value]

/-- Where only values are compared, a wrong answer is one where SQL does not know. -/
theorem told_plain (e : Expr) (plain : Plain e) : Told stod msg e := by
  have right : ∀ {e : Expr}, (∀ t, ¬ Lies stod msg e t) → e.eval stod msg = denote stod msg e →
      Told stod msg e := fun honest same => .inl ⟨honest, same⟩
  induction e using Expr.induction with
  | null | bool v | string text | int text | float text | ident name =>
    exact right (fun _ lies => lies.elim) rfl
  | compare op l r =>
    unfold Told
    rw [Expr.eval, relation_holds, value_eval plain.1, value_eval plain.2, denote]
    by_cases null : .null ∈ [denote stod msg l, denote stod msg r]
    · refine .inr ⟨decide (op = .NEQ), ⟨null, rfl⟩, ?_, if_pos null, by rw [holds_null null]⟩
      rintro ⟨-, same⟩
      simp at same
    · exact .inl ⟨fun _ lies => null lies.1, (knowing_known null _).symm⟩
  | isNull l negated =>
    refine right (fun _ lies => lies.elim) ?_
    rw [Expr.eval, denote, nullTest, value_eval plain, orNegated_xor]
  | between l lo hi negated =>
    unfold Told
    rw [Expr.eval, TinyMqSelector.between, value_eval plain.1, value_eval plain.2.1,
      value_eval plain.2.2, orNegated_xor, denote]
    by_cases null : .null ∈ [denote stod msg l, denote stod msg lo, denote stod msg hi]
    · refine .inr ⟨negated, ⟨null, rfl⟩, ?_, if_pos null, by rw [between_null null, Bool.xor_false]⟩
      rintro ⟨-, same⟩
      simp at same
    · exact .inl ⟨fun _ lies => null lies.1, (knowing_known null _).symm⟩
  | oneOf l item items negated =>
    refine right (fun _ lies => lies.elim) ?_
    have each : items.map (fun e => e.eval stod msg) = items.map (denote stod msg) :=
      List.map_congr_left fun e member => value_eval (plain.2.2 e member)
    rw [Expr.eval, denote, oneOf_knowing, value_eval plain.1, List.map_cons, value_eval plain.2.1,
      evalItems_map, denoteItems_map, ← each, List.map_map]
    rfl
  | like l pattern negated =>
    refine right (fun _ lies => lies.elim) ?_
    rw [Expr.eval, denote, TinyMqSelector.like, value_eval plain]
    cases denote stod msg l <;> first | rfl | exact orNegated_xor _ _
  | not e inner => exact told_not (inner plain)
  | and l r left right' => exact told_and (left plain.1) (right' plain.2)
  | or l r left right' => exact told_or (left plain.1) (right' plain.2)

end Meaning

/-- The evaluator of a selector that the parser accepts computes the logic of SQL just if its
    answers to comparisons with a NULL operand make no difference there. Where only values are
    compared, this says that it does not lie; and the selector matches what is TRUE. -/
theorem three_valued (stod : Str → Except NumberError Double) {ts : List Token} {f : EvalFn}
    (accepted : parseExpression stod none ts = .ok f) :
    (∃ e, Derives .or_expr ts e) ∧ ∀ e, Derives .or_expr ts e → ∀ msg,
      (f msg = denote stod msg e ↔
        denote stod msg (answered stod msg e) = denote stod msg e) ∧
      (Plain e → (f msg = denote stod msg e ↔ ∀ t, ¬ Lies stod msg e t)) ∧
      (selectorOf f msg = true ↔ truth (f msg) = .TRUE) := by
  obtain ⟨⟨e₀, d₀, _⟩, quiet⟩ := parse_sound accepted
  refine ⟨⟨e₀, d₀⟩, ?_⟩
  intro e d msg
  have value : f = e.eval stod := by
    have parsed := parse_complete d quiet
    rw [accepted] at parsed
    exact Except.ok.inj parsed
  rw [value]
  refine ⟨by rw [eval_answered], ?_, ?_⟩
  · intro plain
    have told : Told stod msg e := told_plain e plain
    rcases told with
      ⟨honest, same⟩ | ⟨t, lies, -, unknown, answer⟩
    · exact iff_of_true same honest
    · refine iff_of_false ?_ fun honest => honest t lies
      rw [answer, unknown]
      intro same
      cases same
  · unfold selectorOf
    rcases e.eval stod msg with _ | (_ | _) | _ | _ | _ <;> simp [truth]

def equalsOne : Expr := .compare .EQ (.ident [97]) (.int [49])

theorem equalsOne_parsed :
    parseExpression readDouble none equalsOne.print = .ok (equalsOne.eval readDouble) :=
  parse_complete (print_whole equalsOne) (by decide)

def trueOr : Expr := .or (.bool true) equalsOne

theorem trueOr_parsed :
    parseExpression readDouble none trueOr.print = .ok (trueOr.eval readDouble) :=
  parse_complete (print_whole trueOr) (by decide)

theorem present_matches :
    selectorOf (equalsOne.eval readDouble) [([97], .value (.long 1))] = true ∧
      trueOr.eval readDouble [] = denote readDouble [] trueOr := by
  refine ⟨?_, ?_⟩
  · exact ((three_valued readDouble equalsOne_parsed).2 equalsOne (print_whole equalsOne)
      [([97], .value (.long 1))]).2.2.mpr (by decide)
  · refine (((three_valued readDouble trueOr_parsed).2 trueOr (print_whole trueOr) []).2.1
      ⟨trivial, rfl, rfl⟩).mpr ?_
    rintro (_ | _) lies
    · rcases lies with ⟨none, _⟩ | ⟨_, false⟩
      · exact none
      · cases false
    · rcases lies with ⟨none, _⟩ | ⟨_, true_⟩
      · exact none
      · exact true_ rfl

theorem negated_parsed : parseExpression readDouble none (Expr.not equalsOne).print =
    .ok ((Expr.not equalsOne).eval readDouble) :=
  parse_complete (print_whole _) (by decide)

/-- `NOT a = 1` is UNKNOWN of a message without the property, and matches it. -/
theorem negated_missing_matches :
    parseExpression readDouble none (Expr.not equalsOne).print =
      .ok ((Expr.not equalsOne).eval readDouble) ∧
    Derives .or_expr (Expr.not equalsOne).print (.not equalsOne) ∧
    denote readDouble [] (.not equalsOne) = .null ∧
    selectorOf ((Expr.not equalsOne).eval readDouble) [] = true ∧
    ¬ ∀ ts f, parseExpression readDouble none ts = .ok f → ∀ e, Derives .or_expr ts e →
      ∀ msg, f msg = denote readDouble msg e := by
  refine ⟨negated_parsed, print_whole _, by decide, by decide, ?_⟩
  intro exact_
  have same := exact_ _ _ negated_parsed _ (print_whole _) []
  revert same
  decide

end TinyMqSelectorLogic
