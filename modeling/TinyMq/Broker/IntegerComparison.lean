import TinyMq.Broker.SelectorLogic

/-!
Comparisons of integers. The selector converts its operands to doubles first, so integers
of one double compare as equal.
-/
namespace TinyMqIntegerComparison
open Doubles AssocLists TinyMqMessage TinyMqWireFormat TinyMqSelector TinyMqSelectorGrammar
  TinyMqSelectorLogic

section Operands

/-- The trees whose value on a message is an integer: the INT literals, and the properties of an
    integer type. -/
inductive Reads (msg : Properties) : Expr → Int → Prop where
  | literal {text : Str} {v : BitVec 64} : stoll text = .ok v → Reads msg (.int text) v.toInt
  | long {name : Str} {v : BitVec 64} :
      get msg name = some (.value (.long v)) → Reads msg (.ident name) v.toInt
  | integer {name : Str} {v : BitVec 32} :
      get msg name = some (.value (.integer v)) → Reads msg (.ident name) v.toInt
  | short {name : Str} {v : BitVec 16} :
      get msg name = some (.value (.short v)) → Reads msg (.ident name) v.toInt
  | byte {name : Str} {v : UInt8} :
      get msg name = some (.value (.byte v)) → Reads msg (.ident name) v.toBitVec.toInt

structure Operand (msg : Properties) where
  tree : Expr
  value : Int
  reads : Reads msg tree value

theorem Operand.eval {msg : Properties} (stod : Str → Except NumberError Double)
    (o : Operand msg) : ∃ v : BitVec 64, o.tree.eval stod msg = .int64 v ∧ v.toInt = o.value := by
  obtain ⟨tree, value, reads⟩ := o
  cases reads with
  | @literal text v read => exact ⟨v, by simp only [Expr.eval, read, numeral], rfl⟩
  | @long name v held => exact ⟨v, by simp only [Expr.eval, extractProperty, held], rfl⟩
  | @integer name v held =>
    exact ⟨v.signExtend 64, by simp only [Expr.eval, extractProperty, held],
      BitVec.toInt_signExtend_of_le (by decide)⟩
  | @short name v held =>
    exact ⟨v.signExtend 64, by simp only [Expr.eval, extractProperty, held],
      BitVec.toInt_signExtend_of_le (by decide)⟩
  | @byte name v held =>
    exact ⟨v.toBitVec.signExtend 64, by simp only [Expr.eval, extractProperty, held],
      BitVec.toInt_signExtend_of_le (by decide)⟩

theorem int64_small (v : BitVec 64) : v.toInt.natAbs < 2 ^ 64 := by
  have low := BitVec.le_toInt v
  have high := BitVec.toInt_lt (x := v)
  omega

theorem selEQ_int64 (a b : BitVec 64) : selEQ (.int64 a) (.int64 b) =
    decide (nearestInt a.toInt = nearestInt b.toInt) :=
  eq_ofInt (int64_small a) (int64_small b)

theorem selLT_int64 (a b : BitVec 64) : selLT (.int64 a) (.int64 b) =
    decide (nearestInt a.toInt < nearestInt b.toInt) :=
  lt_ofInt (int64_small a) (int64_small b)

theorem selLTE_int64 (a b : BitVec 64) : selLTE (.int64 a) (.int64 b) =
    decide (nearestInt a.toInt ≤ nearestInt b.toInt) := by
  unfold selLTE
  rw [selEQ_int64, selLT_int64, ← Bool.decide_or, decide_eq_decide]
  omega

theorem selGTE_int64 (a b : BitVec 64) : selGTE (.int64 a) (.int64 b) =
    decide (nearestInt b.toInt ≤ nearestInt a.toInt) := by
  unfold selGTE selGT
  rw [selEQ_int64, selLT_int64, ← Bool.decide_or, decide_eq_decide]
  omega

end Operands

section Comparisons

inductive Comparison (msg : Properties) where
  | compare (op : Relation) (l r : Operand msg)
  | between (l lo hi : Operand msg) (negated : Bool)
  | oneOf (l item : Operand msg) (items : List (Operand msg)) (negated : Bool)

variable {msg : Properties}

def Comparison.tree : Comparison msg → Expr
  | .compare op l r => .compare op l.tree r.tree
  | .between l lo hi negated => .between l.tree lo.tree hi.tree negated
  | .oneOf l item items negated => .oneOf l.tree item.tree (items.map Operand.tree) negated

def inOrder (op : Relation) (a b : Int) : Bool :=
  match op with
  | .EQ => a = b
  | .NEQ => a ≠ b
  | .LT => a < b
  | .LTE => a ≤ b
  | .GT => b < a
  | .GTE => b ≤ a

def Comparison.holds : Comparison msg → Bool
  | .compare op l r => inOrder op l.value r.value
  | .between l lo hi negated => negated ^^ (lo.value ≤ l.value && l.value ≤ hi.value)
  | .oneOf l item items negated => negated ^^ (item :: items).any fun i => l.value = i.value

/-- The rounding tells apart what the comparison has to tell apart. -/
def Comparison.Apart : Comparison msg → Prop
  | .compare op l r => match op with
    | .EQ | .NEQ => nearestInt l.value = nearestInt r.value → l.value = r.value
    | .LT | .GTE => nearestInt l.value = nearestInt r.value → r.value ≤ l.value
    | .GT | .LTE => nearestInt l.value = nearestInt r.value → l.value ≤ r.value
  | .between l lo hi _ =>
    nearestInt lo.value ≤ nearestInt l.value → nearestInt l.value ≤ nearestInt hi.value →
      lo.value ≤ l.value ∧ l.value ≤ hi.value
  | .oneOf l item items _ =>
    (∃ i ∈ item :: items, nearestInt l.value = nearestInt i.value) →
      ∃ i ∈ item :: items, l.value = i.value

theorem relation_rounded (op : Relation) (a b : BitVec 64) :
    TinyMqSelectorLogic.holds op (.int64 a) (.int64 b) =
      inOrder op (nearestInt a.toInt) (nearestInt b.toInt) := by
  cases op with
  | EQ => exact selEQ_int64 a b
  | NEQ =>
    change (!selEQ (.int64 a) (.int64 b)) = _
    rw [selEQ_int64, ← decide_not]
    rfl
  | LT => exact selLT_int64 a b
  | LTE => exact selLTE_int64 a b
  | GT => exact selLT_int64 b a
  | GTE => exact selGTE_int64 a b

/-- What the selector answers: the comparison of the rounded integers. -/
theorem compare_rounded (stod : Str → Except NumberError Double) (op : Relation)
    (l r : Operand msg) : (Expr.compare op l.tree r.tree).eval stod msg =
      .bool (inOrder op (nearestInt l.value) (nearestInt r.value)) := by
  obtain ⟨a, left, same⟩ := l.eval stod
  obtain ⟨b, right, same'⟩ := r.eval stod
  rw [Expr.eval, relation_holds, left, right, relation_rounded, same, same']

theorem between_rounded (stod : Str → Except NumberError Double) (l lo hi : Operand msg)
    (negated : Bool) : (Expr.between l.tree lo.tree hi.tree negated).eval stod msg =
      .bool (negated ^^ (nearestInt lo.value ≤ nearestInt l.value &&
        nearestInt l.value ≤ nearestInt hi.value)) := by
  obtain ⟨a, middle, same⟩ := l.eval stod
  obtain ⟨b, low, same'⟩ := lo.eval stod
  obtain ⟨c, high, same''⟩ := hi.eval stod
  rw [Expr.eval]
  unfold between
  rw [middle, low, high, orNegated_xor]
  rw [selGTE_int64, selLTE_int64, same, same', same'']

theorem oneOf_rounded (stod : Str → Except NumberError Double) (l item : Operand msg)
    (items : List (Operand msg)) (negated : Bool) :
    (Expr.oneOf l.tree item.tree (items.map Operand.tree) negated).eval stod msg =
      .bool (negated ^^ (item :: items).any fun i => nearestInt l.value = nearestInt i.value) := by
  obtain ⟨a, left, same⟩ := l.eval stod
  have each : ∀ i : Operand msg, selEQ (.int64 a) (i.tree.eval stod msg) =
      decide (nearestInt l.value = nearestInt i.value) := by
    intro i
    obtain ⟨b, value, same'⟩ := i.eval stod
    rw [value, selEQ_int64, same, same']
  have known : SelectorValue.null ∉ [SelectorValue.int64 a] := by simp
  have values : (item.tree.eval stod :: evalItems stod (items.map Operand.tree)).map (· msg) =
      (item :: items).map fun i => i.tree.eval stod msg := by
    simp [evalItems_map]
  have tests : ((fun v => selEQ (.int64 a) v) ∘ fun i : Operand msg => i.tree.eval stod msg) =
      fun i => decide (nearestInt l.value = nearestInt i.value) := funext each
  rw [Expr.eval, oneOf_knowing, left, knowing_known known, values, List.any_map, tests]

theorem inOrder_rounded (op : Relation) (l r : Operand msg) :
    inOrder op (nearestInt l.value) (nearestInt r.value) = inOrder op l.value r.value ↔
      (Comparison.compare op l r).Apart := by
  have up : l.value ≤ r.value → nearestInt l.value ≤ nearestInt r.value := nearestInt_mono
  have down : r.value ≤ l.value → nearestInt r.value ≤ nearestInt l.value := nearestInt_mono
  cases op <;> simp only [inOrder, Comparison.Apart, decide_eq_decide] <;> omega

/-- A comparison of integers, converted to doubles, is one of the integers themselves exactly where
    the rounding tells apart what has to be told apart. -/
theorem comparison_exact_iff (stod : Str → Except NumberError Double) (c : Comparison msg) :
    c.tree.eval stod msg = .bool c.holds ↔ c.Apart := by
  cases c with
  | compare op l r =>
    rw [Comparison.tree, compare_rounded, SelectorValue.bool.injEq]
    exact inOrder_rounded op l r
  | between l lo hi negated =>
    have low : lo.value ≤ l.value → nearestInt lo.value ≤ nearestInt l.value := nearestInt_mono
    have high : l.value ≤ hi.value → nearestInt l.value ≤ nearestInt hi.value := nearestInt_mono
    rw [Comparison.tree, between_rounded, SelectorValue.bool.injEq, Comparison.holds, Bool.xor_right_inj,
      ← Bool.decide_and, ← Bool.decide_and, decide_eq_decide]
    unfold Comparison.Apart
    omega
  | oneOf l item items negated =>
    have same : (∃ i ∈ item :: items, l.value = i.value) →
        ∃ i ∈ item :: items, nearestInt l.value = nearestInt i.value := by
      rintro ⟨i, member, equal⟩
      exact ⟨i, member, congrArg nearestInt equal⟩
    rw [Comparison.tree, oneOf_rounded, SelectorValue.bool.injEq, Comparison.holds, Bool.xor_right_inj,
      Bool.eq_iff_iff, List.any_eq_true, List.any_eq_true]
    simp only [decide_eq_true_eq]
    exact ⟨Iff.mp, fun apart => ⟨apart, same⟩⟩

theorem small_apart (op : Relation) {l r : Operand msg} (left : -2 ^ 53 < l.value ∧ l.value < 2 ^ 53)
    (right : -2 ^ 53 < r.value ∧ r.value < 2 ^ 53) : (Comparison.compare op l r).Apart := by
  rw [← inOrder_rounded, nearestInt_small left.1 left.2, nearestInt_small right.1 right.2]

def literal (text : Str) (v : BitVec 64) (read : stoll text = .ok v) : Operand msg :=
  ⟨.int text, v.toInt, .literal read⟩

def power : Operand msg :=
  literal (str "9007199254740992".toList) 9007199254740992#64 (by decide)

def successor : Operand msg :=
  literal (str "9007199254740993".toList) 9007199254740993#64 (by decide)

theorem successor_equal :
    (Comparison.compare .EQ successor (power : Operand [])).tree.eval readDouble [] = .bool true ∧
    ¬ (Comparison.compare .EQ successor (power : Operand [])).tree.eval readDouble [] =
      .bool (Comparison.compare .EQ successor (power : Operand [])).holds := by
  have equal : (Comparison.compare .EQ successor (power : Operand [])).tree.eval readDouble [] =
      .bool true := by
    rw [Comparison.tree, compare_rounded]
    have rounded : inOrder .EQ (nearestInt (successor : Operand []).value)
        (nearestInt (power : Operand []).value) = true := by decide
    rw [rounded]
  refine ⟨equal, ?_⟩
  rw [equal]
  decide

end Comparisons
end TinyMqIntegerComparison
