import TinyMq.Broker.SelectorReading

/-!
The selector parser reads the grammar: it finds exactly the derivable token sequences, and
the closure that it builds is the value of the tree.
-/
namespace TinyMqSelectorParsing
open Doubles TopDown TinyMqMessage TinyMqWireFormat TinyMqSelector TinyMqSelectorGrammar
open TinyMqSelectorReading

section Phrases
variable (stod : Str → Except NumberError Double)

theorem phrase_nonempty : ∀ nt ∈ [Nonterminal.primary, .comparison, .not_expr, .and_expr, .or_expr],
    (Phrase stod nt).Nonempty := by
  have base : Derives .primary [⟨.NULL_LIT, []⟩] .null := .null rfl
  have and : Derives .and_expr [⟨.NULL_LIT, []⟩] .null :=
    .and_expr (.not_comparison (.bare base)) .and_end
  intro nt member
  refine ⟨[⟨.NULL_LIT, []⟩], _, .null, ?_, rfl⟩
  simp only [List.mem_cons, List.not_mem_nil, or_false] at member
  rcases member with rfl | rfl | rfl | rfl | rfl
  · exact base
  · exact .bare base
  · exact .not_comparison (.bare base)
  · exact and
  · exact .or_expr and .or_end

theorem primary_phrase (us : List Token) (f : EvalFn) :
    primary stod (Phrase stod .or_expr) us f ↔ Phrase stod .primary us f := by
  constructor
  · rintro (⟨t, vs, rfl, good, ws, xs, a, rfl, ⟨e, d, rfl⟩, ys, zs, b, rfl, ⟨closes, _, rfl, good', rfl, rfl⟩,
      rfl, rfl⟩ | ⟨t, vs, rfl, good, rfl, rfl⟩ | ⟨t, vs, rfl, good, rfl, rfl⟩ |
      ⟨t, vs, rfl, good, rfl, rfl⟩ | ⟨t, vs, rfl, good, rfl, rfl⟩ | ⟨t, vs, rfl, good, rfl, rfl⟩ |
      ⟨t, vs, rfl, good, rfl, rfl⟩ | ⟨t, vs, rfl, good, rfl, rfl⟩ | never)
    · exact ⟨e, .parens (of_decide_eq_true good) d (of_decide_eq_true good'), rfl⟩
    · exact ⟨_, .null (of_decide_eq_true good), rfl⟩
    · exact ⟨_, .true_ (of_decide_eq_true good), rfl⟩
    · exact ⟨_, .false_ (of_decide_eq_true good), rfl⟩
    · exact ⟨_, .string (of_decide_eq_true good), rfl⟩
    · exact ⟨_, .int (of_decide_eq_true good), rfl⟩
    · exact ⟨_, .float (of_decide_eq_true good), rfl⟩
    · exact ⟨_, .ident (of_decide_eq_true good), rfl⟩
    · exact never.elim
  · rintro ⟨e, d, rfl⟩
    have lit : ∀ {type : TokenType} {value : Token → EvalFn} {t : Token}, t.type = type →
        one type value [t] (value t) :=
      fun good => ⟨_, [], rfl, decide_eq_true good, rfl, rfl⟩
    cases d with
    | @parens us _ opens closes good inner good' =>
      exact .inl ⟨opens, us ++ [closes], rfl, decide_eq_true good, us, [closes], _, rfl,
        ⟨e, inner, rfl⟩, [closes], [], closes, rfl, ⟨_, [], rfl, decide_eq_true good', rfl, rfl⟩,
        rfl, rfl⟩
    | null good => exact .inr (.inl (lit good))
    | true_ good => exact .inr (.inr (.inl (lit good)))
    | false_ good => exact .inr (.inr (.inr (.inl (lit good))))
    | string good => exact .inr (.inr (.inr (.inr (.inl (lit good)))))
    | int good => exact .inr (.inr (.inr (.inr (.inr (.inl (lit good))))))
    | float good => exact .inr (.inr (.inr (.inr (.inr (.inr (.inl (lit good)))))))
    | ident good => exact .inr (.inr (.inr (.inr (.inr (.inr (.inr (.inl (lit good))))))))

/-- What a repetition makes of the value before it. -/
def Unrolled (nt : Nonterminal) (us : List Token) (e : Expr) : Prop :=
  match nt with
  | .or_rest l => Language.Chain (fun t => t.type = .OR) (fun l => Language.seq (Phrase stod .and_expr)
      fun r => Language.empty (disjunction l r)) (l.eval stod) us (e.eval stod)
  | .and_rest l => Language.Chain (fun t => t.type = .AND)
      (fun l => Language.seq (Phrase stod .not_expr) fun r => Language.empty (conjunction l r))
      (l.eval stod) us (e.eval stod)
  | .in_rest l item items negated => ∃ values,
      Language.Chain (fun t => t.type = .COMMA) (moreItems (Phrase stod .primary))
        (evalItems stod (item :: items)) us values ∧
      e.eval stod = oneOf (l.eval stod) values negated
  | _ => True

theorem unrolled {nt : Nonterminal} {us : List Token} {e : Expr} (d : Derives nt us e) :
    Unrolled stod nt us e := by
  induction d with
  | or_end => exact .stop _
  | @or_more t us vs l r e good inner _ _ ih =>
    exact .round (decide_eq_true good) ⟨us, [], _, by simp, ⟨r, inner, rfl⟩, rfl, rfl⟩ ih
  | and_end => exact .stop _
  | @and_more t us vs l r e good inner _ _ ih =>
    exact .round (decide_eq_true good) ⟨us, [], _, by simp, ⟨r, inner, rfl⟩, rfl, rfl⟩ ih
  | in_end => exact ⟨_, .stop _, by simp [Expr.eval, evalItems]⟩
  | @in_more t us vs l item r e items negated good inner _ _ ih =>
    obtain ⟨values, chain, same⟩ := ih
    refine ⟨values, .round (decide_eq_true good) ⟨us, [], _, by simp, ⟨r, inner, rfl⟩, rfl, rfl⟩ ?_,
      same⟩
    simpa [evalItems_map] using chain
  | _ => trivial

theorem rolled {type : TokenType} {item : Nonterminal} {rest : Expr → Nonterminal}
    {join : Expr → Expr → Expr} {combine : EvalFn → EvalFn → EvalFn}
    (value : ∀ l r, (join l r).eval stod = combine (l.eval stod) (r.eval stod))
    (stop : ∀ l, Derives (rest l) [] l)
    (more : ∀ (t : Token) us vs l r e, t.type = type → Derives item us r →
      Derives (rest (join l r)) vs e → Derives (rest l) (t :: (us ++ vs)) e)
    {a f : EvalFn} {us : List Token}
    (chain : Language.Chain (fun t => t.type = type)
      (fun l => Language.seq (Phrase stod item) fun r => Language.empty (combine l r)) a us f)
    {l : Expr} (start : a = l.eval stod) : ∃ e, Derives (rest l) us e ∧ f = e.eval stod := by
  induction chain generalizing l with
  | stop => exact ⟨l, stop l, start⟩
  | @round a b c t us vs good phrase _ ih =>
    obtain ⟨xs, ys, r', cut, ⟨r, d, rfl⟩, rfl, rfl⟩ := phrase
    rw [List.append_nil] at cut
    subst cut
    obtain ⟨e, d', same⟩ := ih (l := join l r) (by rw [value, start])
    exact ⟨e, more t us vs l r e (of_decide_eq_true good) d d', same⟩

theorem items_rolled (l item : Expr) (negated : Bool) {a values : List EvalFn} {us : List Token}
    (chain : Language.Chain (fun t => t.type = .COMMA) (moreItems (Phrase stod .primary)) a us values)
    {items : List Expr} (start : a = evalItems stod (item :: items)) :
    ∃ e, Derives (.in_rest l item items negated) us e ∧
      oneOf (l.eval stod) values negated = e.eval stod := by
  induction chain generalizing items with
  | stop => exact ⟨_, .in_end, by simp [start, Expr.eval, evalItems]⟩
  | @round a b c t us vs good phrase _ ih =>
    obtain ⟨xs, ys, r', cut, ⟨r, d, rfl⟩, rfl, rfl⟩ := phrase
    rw [List.append_nil] at cut
    subst cut
    obtain ⟨e, d', same⟩ := @ih (items ++ [r]) (by simp [start, evalItems_map])
    exact ⟨e, .in_more (of_decide_eq_true good) d d', same⟩

theorem or_phrase (us : List Token) (f : EvalFn) :
    Language.seq (Phrase stod .and_expr) (Language.Chain (fun t => t.type = .OR)
      fun l => Language.seq (Phrase stod .and_expr) fun r => Language.empty (disjunction l r)) us f ↔
    Phrase stod .or_expr us f := by
  constructor
  · rintro ⟨vs, ws, a, rfl, ⟨l, d, rfl⟩, chain⟩
    obtain ⟨e, d', same⟩ := rolled stod (fun _ _ => rfl) (fun _ => .or_end)
      (fun _ _ _ _ _ _ => .or_more) chain rfl
    exact ⟨e, .or_expr d d', same⟩
  · rintro ⟨e, d, rfl⟩
    cases d with
    | or_expr first rest => exact ⟨_, _, _, rfl, ⟨_, first, rfl⟩, unrolled stod rest⟩

theorem and_phrase (us : List Token) (f : EvalFn) :
    Language.seq (Phrase stod .not_expr) (Language.Chain (fun t => t.type = .AND)
      fun l => Language.seq (Phrase stod .not_expr) fun r => Language.empty (conjunction l r)) us f ↔
    Phrase stod .and_expr us f := by
  constructor
  · rintro ⟨vs, ws, a, rfl, ⟨l, d, rfl⟩, chain⟩
    obtain ⟨e, d', same⟩ := rolled stod (fun _ _ => rfl) (fun _ => .and_end)
      (fun _ _ _ _ _ _ => .and_more) chain rfl
    exact ⟨e, .and_expr d d', same⟩
  · rintro ⟨e, d, rfl⟩
    cases d with
    | and_expr first rest => exact ⟨_, _, _, rfl, ⟨_, first, rfl⟩, unrolled stod rest⟩

theorem not_phrase (us : List Token) (f : EvalFn) :
    Language.either (Language.token (fun t => t.type = .NOT) fun _ =>
      Language.seq (Phrase stod .not_expr) fun f => Language.empty (negation f))
      (Phrase stod .comparison) us f ↔ Phrase stod .not_expr us f := by
  constructor
  · rintro (⟨t, vs, rfl, good, xs, ys, a, rfl, ⟨e, d, rfl⟩, rfl, rfl⟩ | ⟨e, d, rfl⟩)
    · rw [List.append_nil]
      exact ⟨.not e, .not_not (of_decide_eq_true good) d, rfl⟩
    · exact ⟨e, .not_comparison d, rfl⟩
  · rintro ⟨e, d, rfl⟩
    cases d with
    | @not_not t us e good inner =>
      exact .inl ⟨t, us, rfl, decide_eq_true good, us, [], _, by simp, ⟨e, inner, rfl⟩, rfl, rfl⟩
    | not_comparison inner => exact .inr ⟨_, inner, rfl⟩

theorem operator_phrase {l : Expr} {negated : Bool} {us ns vs : List Token} {f : EvalFn}
    (left : Derives .primary us l) (negation : Negation negated ns)
    (phrase : operator (Phrase stod .primary) (l.eval stod) negated vs f) :
    Phrase stod .comparison (us ++ (ns ++ vs)) f := by
  rcases phrase with ⟨t, xs, rfl, good, phrase⟩ | ⟨t, xs, rfl, good, phrase⟩ |
    ⟨t, xs, rfl, good, phrase⟩ | phrase
  · obtain ⟨ys, zs, a, rfl, ⟨lo, d, rfl⟩, as, bs, b, rfl, ⟨and, _, rfl, good', rfl, rfl⟩, cs, ds, c,
      rfl, ⟨hi, d', rfl⟩, rfl, rfl⟩ := phrase
    rw [List.append_nil]
    exact ⟨_, .between left negation (of_decide_eq_true good) d (of_decide_eq_true good') d', rfl⟩
  · obtain ⟨ys, zs, a, rfl, ⟨opens, _, rfl, good', rfl, rfl⟩, as, bs, b, rfl, ⟨item, d, rfl⟩, cs, ds, c,
      rfl, chain, es, gs, g, rfl, ⟨closes, _, rfl, good'', rfl, rfl⟩, rfl, rfl⟩ := phrase
    obtain ⟨e, d', same⟩ := @items_rolled stod l item negated _ _ _ chain [] rfl
    exact ⟨e, .one_of left negation (of_decide_eq_true good) (of_decide_eq_true good') d d'
      (of_decide_eq_true good''), same⟩
  · obtain ⟨ys, zs, a, rfl, ⟨pattern, _, rfl, good', rfl, rfl⟩, rfl, rfl⟩ := phrase
    exact ⟨_, .like left negation (of_decide_eq_true good) (of_decide_eq_true good'), rfl⟩
  · cases negation with
    | present not => exact phrase.elim
    | absent =>
      rcases phrase with ⟨t, xs, rfl, good, ys, zs, a, rfl, ⟨r, d, rfl⟩, rfl, rfl⟩ | ⟨rfl, rfl⟩
      · obtain ⟨op, same⟩ := isRelational_type good
        rw [List.append_nil, same]
        exact ⟨.compare op l r, .compare left same d, rfl⟩
      · simpa using ⟨l, .bare left, rfl⟩

theorem comparison_phrase (us : List Token) (f : EvalFn) :
    comparison (Phrase stod .primary) us f ↔ Phrase stod .comparison us f := by
  have single : ∀ {type : TokenType} {t : Token}, t.type = type → one type id [t] t :=
    fun good => ⟨_, [], rfl, decide_eq_true good, rfl, rfl⟩
  constructor
  · rintro ⟨vs, ws, a, rfl, ⟨l, left, rfl⟩, ⟨t, xs, rfl, good, ns, ys, negated, rfl, negation, zs, as, b,
      rfl, ⟨null, _, rfl, good', rfl, rfl⟩, rfl, rfl⟩ | ⟨ns, ys, negated, rfl, negation, phrase⟩⟩
    · exact ⟨_, .is_null left (of_decide_eq_true good) negation (of_decide_eq_true good'), rfl⟩
    · exact operator_phrase stod left negation phrase
  · rintro ⟨e, d, rfl⟩
    cases d with
    | bare left =>
      exact ⟨us, [], _, by simp, ⟨e, left, rfl⟩, .inr ⟨[], [], false, rfl, .absent,
        .inr (.inr (.inr (.inr ⟨rfl, rfl⟩)))⟩⟩
    | is_null left good negation good' =>
      exact ⟨_, _, _, rfl, ⟨_, left, rfl⟩, .inl ⟨_, _, rfl, decide_eq_true good, _, _, _, rfl, negation,
        _, [], _, rfl, single good', rfl, rfl⟩⟩
    | between left negation good lo good' hi =>
      refine ⟨_, _, _, rfl, ⟨_, left, rfl⟩, .inr ⟨_, _, _, rfl, negation, .inl ⟨_, _, rfl,
        decide_eq_true good, ?_⟩⟩⟩
      exact ⟨_, _, _, rfl, ⟨_, lo, rfl⟩, [_], _, _, rfl, single good', _, [], _, by simp, ⟨_, hi, rfl⟩,
        rfl, rfl⟩
    | one_of left negation good good' first rest good'' =>
      obtain ⟨values, chain, same⟩ := unrolled stod rest
      rw [same]
      refine ⟨_, _, _, rfl, ⟨_, left, rfl⟩, .inr ⟨_, _, _, rfl, negation, .inr (.inl ⟨_, _, rfl,
        decide_eq_true good, ?_⟩)⟩⟩
      exact ⟨[_], _, _, rfl, single good', _, _, _, rfl, ⟨_, first, rfl⟩, _, _, _, rfl, chain, [_], [],
        _, rfl, single good'', rfl, rfl⟩
    | like left negation good good' =>
      refine ⟨_, _, _, rfl, ⟨_, left, rfl⟩, .inr ⟨_, _, _, rfl, negation, .inr (.inr (.inl ⟨_, _, rfl,
        decide_eq_true good, ?_⟩))⟩⟩
      exact ⟨[_], [], _, rfl, single good', rfl, rfl⟩
    | @compare us vs l r op t left good right =>
      have related : isRelational t.type = true := by
        rw [good]
        cases op <;> rfl
      refine ⟨_, _, _, rfl, ⟨_, left, rfl⟩, .inr ⟨[], _, false, rfl, .absent, .inr (.inr (.inr (.inl
        ⟨_, _, rfl, related, vs, [], _, by simp, ⟨_, right, rfl⟩, rfl, ?_⟩)))⟩⟩
      rw [good]
      rfl

end Phrases
section Levels
variable {stod : Str → Except NumberError Double} {lexical : Option Str} {n : Nat}

/-- The tokens that could go on with an `and_expr`, and with an `or_expr`. -/
def conjoins (t : Token) : Prop := continues t ∨ t.type = .AND
def disjoins (t : Token) : Prop := conjoins t ∨ t.type = .OR

theorem continues_not {t : Token} {type : TokenType} (goes : continues t) (same : t.type = type)
    (other : type ∉ [TokenType.IS, .NOT, .BETWEEN, .IN, .LIKE, .EQ, .NEQ, .LT, .LTE, .GT, .GTE]) :
    False := by
  subst same
  rcases goes with word | relational
  · exact other (by
      simp only [List.mem_cons, List.not_mem_nil, or_false] at word ⊢
      tauto)
  · have member := isRelational_types relational
    exact other (by
      simp only [List.mem_cons, List.not_mem_nil, or_false] at member ⊢
      tauto)

theorem parseNot_reads {parseComparison : Parse EvalFn}
    (reads : Reads (source stod lexical) n parseComparison (Phrase stod .comparison) continues)
    (begins : Begins primaryStarts (Phrase stod .comparison)) {m : Nat} (less : m ≤ n) :
    Reads (source stod lexical) m (parseNot lexical parseComparison m) (Phrase stod .not_expr)
      continues := by
  induction m with
  | zero => exact Reads.zero _ _ _
  | succ m ih =>
    have some_ : (Phrase stod .not_expr).Nonempty := phrase_nonempty stod _ (by simp)
    apply Reads.congr _ (not_phrase stod)
    apply (branch_reads (k := fun _ => do
      let expr ← parseNot lexical parseComparison m
      return negation expr) _ _ _ ⟨reads.mono less, begins⟩ (by decide)).1
    · intro t ts good
      exact advance_take stod lexical (by simp [good, isNumber]) _ ts
    · intro t _
      apply (ih (by omega)).bind (fun f => Reads.pure m (negation f) continues)
      · rintro f t us b ⟨nothing, _⟩
        cases nothing
      · intro f b _ t goes
        exact goes
      · intro f
        exact Language.empty_nonempty _
    · intro t
      exact some_.seq fun f => Language.empty_nonempty _

/-- The loops of `parseAnd` and of `parseOr`. -/
theorem loop_reads (type : TokenType) (combine : EvalFn → EvalFn → EvalFn)
    {parseItem : Parse EvalFn} {item : Nonterminal} {more : Token → Prop} (more' : Token → Prop)
    (reads : Reads (source stod lexical) n parseItem (Phrase stod item) more)
    (some_ : (Phrase stod item).Nonempty) (word : ¬ isNumber type)
    (apart : ∀ t : Token, t.type = type → ¬ more t) (ends : ∀ t, more t → more' t)
    (ends' : ∀ t : Token, t.type = type → more' t) :
    Reads (source stod lexical) n
      (do
        let left ← parseItem
        whileNext (fun t => t.type = type) (fun left => do
          advance lexical
          let right ← parseItem
          return combine left right) left)
      (Language.seq (Phrase stod item) (Language.Chain (fun t => t.type = type)
        fun l => Language.seq (Phrase stod item) fun r => Language.empty (combine l r)))
      more' := by
  apply reads.bind
  · intro left
    apply Reads.mono _ (Nat.le_succ n)
    apply Reads.whileNext (k := fun left _ => do
      let right ← parseItem
      return combine left right)
    · intro l t ts good
      exact advance_take stod lexical (by rwa [of_decide_eq_true good]) _ ts
    · intro l t _
      apply reads.bind (fun r => Reads.pure n (combine l r) more)
      · rintro f t us b ⟨nothing, _⟩
        cases nothing
      · intro f b _ t goes
        exact goes
      · intro f
        exact Language.empty_nonempty _
    · intro t good
      exact apart t (of_decide_eq_true good)
    · exact ends
    · intro t good
      exact ends' t (of_decide_eq_true good)
    · intro l
      exact some_.seq fun r => Language.empty_nonempty _
  · intro l t us f chain
    have good := chain_head chain
    exact apart t (of_decide_eq_true good)
  · intro l f _
    exact ends
  · intro l
    exact ⟨[], l, .stop l⟩

theorem parseOr_reads (n : Nat) : Reads (source stod lexical) n (parseOr stod lexical n)
    (Phrase stod .or_expr) disjoins := by
  induction n with
  | zero => exact Reads.zero _ _ _
  | succ n ih =>
    have primaries := parsePrimary_reads ih (phrase_nonempty stod _ (by simp))
      (by
        rintro t closes ((goes | and) | or)
        · exact continues_not goes closes (by decide)
        · rw [closes] at and
          cases and
        · rw [closes] at or
          cases or)
      fun _ => False
    have begins : Begins primaryStarts (Phrase stod .primary) := by
      intro us f phrase
      exact primaries.2 us f ((primary_phrase stod us f).mpr phrase)
    have begins' : Begins primaryStarts (Phrase stod .comparison) := by
      intro us f phrase
      exact Begins.seq begins us f ((comparison_phrase stod us f).mpr phrase)
    have comparisons := (parseComparison_reads (primaries.1.congr (primary_phrase stod))
      (phrase_nonempty stod _ (by simp))).congr (comparison_phrase stod)
    have nots := parseNot_reads comparisons begins' (Nat.le_refl _)
    have ands := (loop_reads .AND conjunction conjoins nots
      (phrase_nonempty stod _ (by simp)) (by simp [isNumber])
      (fun t good goes => continues_not goes good (by decide)) (fun t => .inl)
      (fun t => .inr)).congr (and_phrase stod)
    have ors := (loop_reads .OR disjunction disjoins ands
      (phrase_nonempty stod _ (by simp)) (by simp [isNumber])
      (by
        rintro t good (goes | and)
        · exact continues_not goes good (by decide)
        · rw [good] at and
          cases and)
      (fun t => .inl) (fun t => .inr)).congr (or_phrase stod)
    exact ors

end Levels
section Expressions
variable {stod : Str → Except NumberError Double} {lexical : Option Str} {ts : List Token}

theorem parse_sound {f : EvalFn} (done : parseExpression stod lexical ts = .ok f) :
    Phrase stod .or_expr ts f ∧ ∀ t ∈ ts, raises stod t = none := by
  unfold parseExpression at done
  cases read : parseOr stod lexical (ts.length + 1) ts with
  | error e =>
    rw [read] at done
    cases done
  | ok r =>
    obtain ⟨g, rest⟩ := r
    rw [read] at done
    cases rest with
    | cons t rest => cases done
    | nil =>
      cases done
      obtain ⟨us, cut, phrase, quiet⟩ := (parseOr_reads _).sound (Nat.lt_succ_self _) read
      rw [List.append_nil] at cut
      subst cut
      exact ⟨phrase, quiet⟩

theorem parse_complete {e : Expr} (d : Derives .or_expr ts e)
    (quiet : ∀ t ∈ ts, raises stod t = none) : parseExpression stod none ts = .ok (e.eval stod) := by
  have read : parseOr stod none (ts.length + 1) (ts ++ []) = .ok (e.eval stod, []) :=
    (parseOr_reads _).complete (by simp) ⟨e, d, rfl⟩ quiet (by simp) (.inl rfl)
  rw [List.append_nil] at read
  unfold parseExpression
  rw [read]

theorem parse_blocks {us vs ws : List Token} {t : Token} {e : Expr} {thrown : Thrown}
    (d : Derives .or_expr (us ++ t :: vs) e) (quiet : ∀ u ∈ us, raises stod u = none)
    (raised : raises stod t = some thrown) :
    parseExpression stod lexical (us ++ t :: ws) = .error thrown := by
  have read : parseOr stod lexical ((us ++ t :: ws).length + 1) (us ++ t :: ws) = .error thrown :=
    (parseOr_reads _).blocks (Nat.lt_succ_self _) ⟨e, d, rfl⟩ quiet raised
  unfold parseExpression
  rw [read]

theorem parse_fails {thrown : Thrown} (failed : parseExpression stod lexical ts = .error thrown) :
    (∃ message, thrown = invalidSelector message) ∨
    ∃ us t ws, ts = us ++ t :: ws ∧ raises stod t = some thrown ∧
      ∃ vs e, Derives .or_expr (us ++ t :: vs) e := by
  unfold parseExpression at failed
  cases read : parseOr stod lexical (ts.length + 1) ts with
  | ok r =>
    obtain ⟨g, rest⟩ := r
    rw [read] at failed
    cases rest with
    | nil => cases failed
    | cons t rest =>
      cases failed
      exact .inl ⟨_, rfl⟩
  | error e =>
    rw [read] at failed
    cases failed
    rcases (parseOr_reads _).fails (Nat.lt_succ_self _) read with refused |
      ⟨us, t, ws, cut, raised, vs, f, e, d, _⟩
    · exact .inl refused
    · exact .inr ⟨us, t, ws, cut, raised, vs, e, d⟩

theorem raises_number {t : Token} {thrown : Thrown} (raised : raises stod t = some thrown) :
    ∃ e, thrown = .number e := by
  have converted : ∀ {β : Type} (value : Except NumberError β), unconverted value = some thrown →
      ∃ e, thrown = .number e := by
    intro β value failed
    cases value with
    | ok v => cases failed
    | error e => exact ⟨e, (Option.some.inj failed).symm⟩
  unfold raises at raised
  split at raised
  · exact converted _ raised
  · exact converted _ raised
  · cases raised

/-- The depth that `parseExpression` allows is enough. -/
theorem parse_settles : parseExpression stod lexical ts ≠ .error .exhausted := by
  intro failed
  rcases parse_fails failed with ⟨message, same⟩ | ⟨us, t, ws, _, raised, _⟩
  · cases same
  · obtain ⟨e, same⟩ := raises_number raised
    cases same

end Expressions
section Acceptance
variable (stod : Str → Except NumberError Double)

def IntsFit (ts : List Token) : Prop :=
  ∀ t ∈ ts, t.type = .INT_LIT → ∃ v, stoll t.text = .ok v

def FloatsFit (ts : List Token) : Prop :=
  ∀ t ∈ ts, t.type = .FLOAT_LIT → ∃ v, stod t.text = .ok v

/-- The parser accepts the tokens just if the grammar does, with the value of every
    derivation, and otherwise refuses them. -/
def Exact (ts : List Token) : Prop :=
  (∀ e, Derives .or_expr ts e → parseExpression stod none ts = .ok (e.eval stod)) ∧
  ((¬ ∃ e, Derives .or_expr ts e) →
    ∃ message, parseExpression stod none ts = .error (invalidSelector message))

/-- Up to a FLOAT literal that `std::stod` does not convert, the tokens begin as an
    expression does. -/
def MeetsUnreadable (ts : List Token) : Prop :=
  ∃ us t ws, ts = us ++ t :: ws ∧ t.type = .FLOAT_LIT ∧ (∃ e, stod t.text = .error e) ∧
    ∃ vs e, Derives .or_expr (us ++ t :: vs) e

theorem raises_cases {ts : List Token} (fit : IntsFit ts) {t : Token} (member : t ∈ ts) :
    raises stod t = none ∨
    t.type = .FLOAT_LIT ∧ ∃ e, stod t.text = .error e ∧ raises stod t = some (.number e) := by
  cases type : t.type with
  | INT_LIT =>
    obtain ⟨v, read⟩ := fit t member type
    exact .inl (by simp [raises, type, read, unconverted])
  | FLOAT_LIT =>
    cases read : stod t.text with
    | ok v => exact .inl (by simp [raises, type, read, unconverted])
    | error e => exact .inr ⟨rfl, e, rfl, by simp [raises, type, read, unconverted]⟩
  | _ => exact .inl (by simp [raises, type])

theorem first_raising (ts : List Token) : (∀ t ∈ ts, raises stod t = none) ∨
    ∃ us t ws e, ts = us ++ t :: ws ∧ (∀ u ∈ us, raises stod u = none) ∧ raises stod t = some e := by
  induction ts with
  | nil => exact .inl (by simp)
  | cons t ts ih =>
    cases raised : raises stod t with
    | some e => exact .inr ⟨[], t, ts, e, rfl, by simp, raised⟩
    | none =>
      rcases ih with quiet | ⟨us, u, ws, e, rfl, quiet, raised'⟩
      · refine .inl fun u member => ?_
        rcases List.mem_cons.mp member with rfl | later
        · exact raised
        · exact quiet u later
      · refine .inr ⟨t :: us, u, ws, e, rfl, fun v member => ?_, raised'⟩
        rcases List.mem_cons.mp member with rfl | later
        · exact raised
        · exact quiet v later

variable {stod}

theorem quiet_floats {ts : List Token} (quiet : ∀ t ∈ ts, raises stod t = none) :
    FloatsFit stod ts := by
  intro t member type
  have calm := quiet t member
  cases read : stod t.text with
  | ok v => exact ⟨v, rfl⟩
  | error e =>
    simp [raises, type, read, unconverted] at calm

theorem floats_quiet {ts : List Token} (fit : IntsFit ts) (floats : FloatsFit stod ts) :
    ∀ t ∈ ts, raises stod t = none := by
  intro t member
  rcases raises_cases stod fit member with quiet | ⟨type, e, failed, _⟩
  · exact quiet
  · obtain ⟨v, read⟩ := floats t member type
    rw [read] at failed
    cases failed

theorem unreadable_throws {ts : List Token} (fit : IntsFit ts) (meets : MeetsUnreadable stod ts) :
    ∃ e, parseExpression stod none ts = .error (.number e) := by
  obtain ⟨us, t, ws, rfl, type, ⟨e, failed⟩, vs, tree, d⟩ := meets
  have raised : raises stod t = some (.number e) := by simp [raises, type, failed, unconverted]
  rcases first_raising stod us with quiet | ⟨xs, u, ys, thrown, rfl, quiet, raised'⟩
  · exact ⟨e, parse_blocks d quiet raised⟩
  · rw [List.append_assoc, List.cons_append] at d fit ⊢
    rcases raises_cases stod fit (t := u) (by simp) with calm | ⟨_, e', _, thrown'⟩
    · rw [calm] at raised'
      cases raised'
    · exact ⟨e', parse_blocks d quiet thrown'⟩

theorem exact_iff {ts : List Token} (fit : IntsFit ts) :
    Exact stod ts ↔ ¬ MeetsUnreadable stod ts := by
  constructor
  · rintro ⟨accepts, refuses⟩ meets
    obtain ⟨e, thrown⟩ := unreadable_throws fit meets
    by_cases derivable : ∃ tree, Derives .or_expr ts tree
    · obtain ⟨tree, d⟩ := derivable
      rw [accepts tree d] at thrown
      cases thrown
    · obtain ⟨message, refused⟩ := refuses derivable
      rw [refused] at thrown
      cases thrown
  · intro readable
    constructor
    · intro e d
      apply parse_complete d
      intro t member
      rcases raises_cases stod fit member with quiet | ⟨type, e', failed, _⟩
      · exact quiet
      · obtain ⟨us, ws, rfl⟩ := List.append_of_mem member
        exact absurd ⟨us, t, ws, rfl, type, ⟨e', failed⟩, ws, e, d⟩ readable
    · intro underivable
      cases parsed : parseExpression stod none ts with
      | ok f =>
        obtain ⟨e, d, _⟩ := (parse_sound parsed).1
        exact absurd ⟨e, d⟩ underivable
      | error thrown =>
        rcases parse_fails parsed with ⟨message, rfl⟩ | ⟨us, t, ws, rfl, raised, vs, e, d⟩
        · exact ⟨message, rfl⟩
        · rcases raises_cases stod fit (t := t) (by simp) with quiet | ⟨type, e', failed, _⟩
          · rw [quiet] at raised
            cases raised
          · exact absurd ⟨us, t, ws, rfl, type, ⟨e', failed⟩, vs, e, d⟩ readable

/-- The parser is exact on the tokens just if it meets no FLOAT literal that it cannot
    convert; what is printed it reads just if all the FLOAT literals in it can be converted. -/
theorem accepts_grammar (stod : Str → Except NumberError Double) :
    (∀ ts, IntsFit ts → (Exact stod ts ↔ ¬ MeetsUnreadable stod ts)) ∧
    ∀ e : Expr, IntsFit e.print →
      (parseExpression stod none e.print = .ok (e.eval stod) ↔ FloatsFit stod e.print) := by
  constructor
  · intro ts fit
    exact exact_iff fit
  · intro e fit
    constructor
    · intro parsed
      exact quiet_floats (parse_sound parsed).2
    · intro floats
      exact parse_complete (print_whole e) (floats_quiet fit floats)

/-- `NOT (a OR b) AND c` as a tree, printed with the parentheses and read back. -/
theorem precedence_read_back :
    let e : Expr := .and (.not (.or (.ident [97]) (.ident [98]))) (.ident [99])
    (e.print.map Token.type =
      [.NOT, .LPAREN, .IDENT, .OR, .IDENT, .RPAREN, .AND, .IDENT]) ∧
    parseExpression readDouble none e.print = .ok (e.eval readDouble) ∧
    Exact readDouble [word .NOT "NOT"] := by
  refine ⟨by decide, ?_, ?_⟩
  · exact ((accepts_grammar readDouble).2 _ (by
      intro t member int
      simp [Expr.print, enclose, Expr.level, word] at member
      rcases member with rfl | rfl | rfl | rfl | rfl | rfl | rfl | rfl <;> cases int)).mpr (by
      intro t member float
      simp [Expr.print, enclose, Expr.level, word] at member
      rcases member with rfl | rfl | rfl | rfl | rfl | rfl | rfl | rfl <;> cases float)
  · apply ((accepts_grammar readDouble).1 _ (by
      intro t member int
      rw [List.mem_singleton.mp member] at int
      cases int)).mpr
    rintro ⟨us, t, ws, cut, float, _⟩
    have member : t ∈ [word .NOT "NOT"] := by
      rw [cut]
      simp
    rw [List.mem_singleton.mp member] at float
    cases float

/-- A decimal literal of 310 digits before the point. -/
def hugeText : Str := List.replicate 310 (byte '9') ++ [byte '.', byte '0']

/-- A FLOAT literal beyond the doubles is an expression, and the parser throws
    `std::out_of_range` on it. -/
theorem huge_literal_throws :
    IntsFit [⟨.FLOAT_LIT, hugeText⟩] ∧ Derives .or_expr [⟨.FLOAT_LIT, hugeText⟩] (.float hugeText) ∧
    parseExpression readDouble none [⟨.FLOAT_LIT, hugeText⟩] = .error (.number .out_of_range) ∧
    ¬ Exact readDouble [⟨.FLOAT_LIT, hugeText⟩] := by
  have derived : Derives .or_expr [⟨.FLOAT_LIT, hugeText⟩] (.float hugeText) :=
    print_whole (.float hugeText)
  have failed : readDouble hugeText = .error .out_of_range := by decide +kernel
  have thrown : parseExpression readDouble none [⟨.FLOAT_LIT, hugeText⟩] =
      .error (.number .out_of_range) :=
    @parse_blocks readDouble none [] [] [] _ _ _ derived (by simp) (by simp [raises, failed, unconverted])
  refine ⟨?_, derived, thrown, ?_⟩
  · intro t member int
    rw [List.mem_singleton.mp member] at int
    cases int
  · rintro ⟨accepts, _⟩
    rw [accepts _ derived] at thrown
    cases thrown

end Acceptance
end TinyMqSelectorParsing
