import TinyMq.Broker.SelectorGrammar

/-!
What the functions of the selector parser read, each as a language of closures over the
language of the functions that it calls.
-/
namespace TinyMqSelectorReading
open Doubles TopDown TinyMqMessage TinyMqWireFormat TinyMqSelector TinyMqSelectorGrammar

section Tokens
variable (stod : Str → Except NumberError Double) (lexical : Option Str)

def unconverted : Except NumberError β → Option Thrown
  | .ok _ => none
  | .error e => some (.number e)

/-- What taking the value of a token throws. -/
def raises (t : Token) : Option Thrown :=
  match t.type with
  | .INT_LIT => unconverted (stoll t.text)
  | .FLOAT_LIT => unconverted (stod t.text)
  | _ => none

def source : Source Token Thrown where
  stop := lexical.map invalidSelector
  raises := raises stod
  refused e := ∃ message, e = invalidSelector message
  stops := by
    intro e stop
    obtain ⟨message, _, rfl⟩ := Option.map_eq_some_iff.mp stop
    exact ⟨message, rfl⟩

def isNumber (type : TokenType) : Prop := type = .INT_LIT ∨ type = .FLOAT_LIT

theorem raises_quiet {t : Token} (other : ¬ isNumber t.type) : raises stod t = none := by
  obtain ⟨int, float⟩ := not_or.mp other
  unfold raises
  split
  · exact absurd ‹_› int
  · exact absurd ‹_› float
  · rfl

theorem advance_take {t : Token} (other : ¬ isNumber t.type) (k : Parse α) (ts : List Token) :
    (advance lexical >>= fun _ => k) (t :: ts) = take (source stod lexical) t k (t :: ts) := by
  have quiet : (source stod lexical).raises t = none := raises_quiet stod other
  unfold take
  rw [quiet]
  rfl

theorem current_take {t : Token} (other : ¬ isNumber t.type) (k : Token → Parse α)
    (ts : List Token) : (current >>= fun tok => advance lexical >>= fun _ => k tok) (t :: ts) =
      take (source stod lexical) t (k t) (t :: ts) := by
  have seen : current (t :: ts) = .ok (t, t :: ts) := rfl
  rw [bind_ok seen]
  exact advance_take stod lexical other (k t) ts

/-- The value of a number is taken before the token is left behind. -/
theorem number_take {t : Token} {value : Except NumberError β}
    (read : raises stod t = unconverted value) (make : β → SelectorValue) (ts : List Token) :
    (convert value >>= fun v => advance lexical >>= fun _ => (pure fun _ => make v : Parse EvalFn))
      (t :: ts) = take (source stod lexical) t (pure (numeral make value)) (t :: ts) := by
  cases value with
  | ok v =>
    have quiet : (source stod lexical).raises t = none := read
    unfold take
    rw [quiet]
    rfl
  | error e =>
    have raised : (source stod lexical).raises t = some (.number e) := read
    rw [take_raises _ raised]
    rfl

theorem refuse_refuses (message : Str → Str) (ts : List Token) :
    ∃ e, (source stod lexical).refused e ∧ (refuse message : Parse α) ts = .error e :=
  ⟨_, ⟨_, rfl⟩, rfl⟩

end Tokens

section Steps
variable {stod : Str → Except NumberError Double} {lexical : Option Str} {n : Nat}

def one (type : TokenType) (value : Token → α) : Language Token α :=
  Language.token (fun t => t.type = type) fun t => Language.empty (value t)

theorem one_nonempty (type : TokenType) (value : Token → α) : (one type value).Nonempty :=
  Language.Nonempty.token (t := ⟨type, []⟩) (decide_eq_true rfl) (Language.empty_nonempty _)

theorem consume_reads {type : TokenType} (other : ¬ isNumber type) (what : Str)
    (more : Token → Prop) :
    Reads (source stod lexical) n (consume lexical type what) (one type id) more := by
  have reads : Reads (source stod lexical) (n + 1) (consume lexical type what)
      (Language.either (one type id) fun _ _ => False) more := by
    apply Reads.branch (k := fun t => pure t)
    · intro t ts good
      exact current_take stod lexical (by simpa [of_decide_eq_true good] using other) _ ts
    · intro t good
      exact Reads.pure n t more
    · exact Reads.refuse (refuse_refuses stod lexical _)
    · intro t us a never
      exact never.elim
    · intro a never
      exact never.elim
    · intro t _
      exact Language.empty_nonempty t
  apply Reads.congr (reads.mono (Nat.le_succ n))
  intro us a
  constructor
  · rintro (phrase | never)
    · exact phrase
    · exact never.elim
  · exact .inl

theorem accept_reads : Reads (source stod lexical) n (accept lexical .NOT)
    (fun us b => Negation b us) fun t => t.type = .NOT := by
  have reads : Reads (source stod lexical) (n + 1) (accept lexical .NOT)
      (Language.either (one .NOT fun _ => true) (Language.empty false)) fun t => t.type = .NOT := by
    apply Reads.branch (k := fun _ => pure true)
    · intro t ts good
      exact advance_take stod lexical (by simp [of_decide_eq_true good, isNumber]) _ ts
    · intro t good
      exact Reads.pure n true _
    · exact Reads.pure (n + 1) false _
    · rintro t us a ⟨nothing, _⟩
      cases nothing
    · intro a _ t good
      exact of_decide_eq_true good
    · intro t _
      exact Language.empty_nonempty true
  apply Reads.congr (reads.mono (Nat.le_succ n))
  intro us a
  constructor
  · rintro (⟨t, vs, rfl, good, rfl, rfl⟩ | ⟨rfl, rfl⟩)
    · exact .present (of_decide_eq_true good)
    · exact .absent
  · intro negation
    cases negation with
    | absent => exact .inr ⟨rfl, rfl⟩
    | present good => exact .inl ⟨_, _, rfl, decide_eq_true good, rfl, rfl⟩

end Steps

section Primary
variable {stod : Str → Except NumberError Double} {lexical : Option Str} {n : Nat}

def Phrase (stod : Str → Except NumberError Double) (nt : Nonterminal) : Language Token EvalFn :=
  fun us f => ∃ e, Derives nt us e ∧ f = e.eval stod

theorem one_head {type : TokenType} {value : Token → α} {t : Token} {us : List Token} {a : α}
    (phrase : one type value (t :: us) a) : t.type = type := by
  obtain ⟨t', vs, same, good, _⟩ := phrase
  obtain ⟨rfl, -⟩ := List.cons.inj same
  exact of_decide_eq_true good

theorem one_full {type : TokenType} {value : Token → α} {a : α} : ¬ one type value [] a := by
  rintro ⟨t, vs, nothing, _⟩
  cases nothing

/-- Every phrase begins with a token of one of the types. -/
def Begins (types : List TokenType) (L : Language Token α) : Prop :=
  ∀ us a, L us a → ∃ t vs, us = t :: vs ∧ t.type ∈ types

theorem Begins.head {types : List TokenType} {L : Language Token α} (begins : Begins types L)
    {t : Token} {us : List Token} {a : α} (phrase : L (t :: us) a) : t.type ∈ types := by
  obtain ⟨t', vs, same, member⟩ := begins _ _ phrase
  obtain ⟨rfl, -⟩ := List.cons.inj same
  exact member

theorem Begins.full {types : List TokenType} {L : Language Token α} (begins : Begins types L)
    {a : α} : ¬ L [] a := by
  intro phrase
  obtain ⟨t, vs, nothing, _⟩ := begins _ _ phrase
  cases nothing

theorem Begins.seq {types : List TokenType} {L : Language Token α} {M : α → Language Token β}
    (begins : Begins types L) : Begins types (Language.seq L M) := by
  rintro us b ⟨vs, ws, a, rfl, phrase, _⟩
  obtain ⟨t, xs, rfl, member⟩ := begins vs a phrase
  exact ⟨t, xs ++ ws, rfl, member⟩

/-- A phrase that is not empty begins with a token of one of the types. -/
def Starts (types : List TokenType) (L : Language Token α) : Prop :=
  ∀ t us a, L (t :: us) a → t.type ∈ types

/-- One more branch of a parser: its token tells it from the branches behind it. -/
theorem option_reads {type : TokenType} {types : List TokenType} {k : Token → Parse α}
    {p q : Parse α} {L : Token → Language Token α} {M : Language Token α} {more : Token → Prop}
    (taken : ∀ t ts, t.type = type →
      p (t :: ts) = take (source stod lexical) t (k t) (t :: ts))
    (next : ∀ t, t.type = type → Reads (source stod lexical) n (k t) (L t) more)
    (yields : ∀ t, (L t).Nonempty)
    (otherwise : Reads (source stod lexical) (n + 1) q M more ∧ Starts types M)
    (new : type ∉ types) (ends : ∀ a, M [] a → ∀ t : Token, t.type = type → more t) :
    Reads (source stod lexical) (n + 1) (check type >>= fun b => if b = true then p else q)
      (Language.either (Language.token (fun t => t.type = type) L) M) more ∧
    Starts (type :: types) (Language.either (Language.token (fun t => t.type = type) L) M) := by
  constructor
  · apply Reads.branch (k := k)
    · intro t ts good
      exact taken t ts (of_decide_eq_true good)
    · intro t good
      exact next t (of_decide_eq_true good)
    · exact otherwise.1
    · intro t us a phrase
      apply decide_eq_false
      rintro rfl
      exact new (otherwise.2 t us a phrase)
    · intro a nothing t good
      exact ends a nothing t (of_decide_eq_true good)
    · intro t _
      exact yields t
  · rintro t us a (⟨t', vs, same, good, _⟩ | phrase)
    · obtain ⟨rfl, -⟩ := List.cons.inj same
      simp [of_decide_eq_true good]
    · exact List.mem_cons_of_mem _ (otherwise.2 t us a phrase)

theorem branch_reads {type : TokenType} {types : List TokenType} {k : Token → Parse α}
    {p q : Parse α} {L : Token → Language Token α} {M : Language Token α} {more : Token → Prop}
    (taken : ∀ t ts, t.type = type →
      p (t :: ts) = take (source stod lexical) t (k t) (t :: ts))
    (next : ∀ t, t.type = type → Reads (source stod lexical) n (k t) (L t) more)
    (yields : ∀ t, (L t).Nonempty)
    (otherwise : Reads (source stod lexical) (n + 1) q M more ∧ Begins types M)
    (new : type ∉ types) :
    Reads (source stod lexical) (n + 1) (check type >>= fun b => if b = true then p else q)
      (Language.either (Language.token (fun t => t.type = type) L) M) more ∧
    Begins (type :: types) (Language.either (Language.token (fun t => t.type = type) L) M) := by
  constructor
  · apply (option_reads taken next yields ⟨otherwise.1, fun _ _ _ => otherwise.2.head⟩ new _).1
    intro a nothing
    exact absurd nothing otherwise.2.full
  · rintro us a (⟨t, vs, rfl, good, _⟩ | phrase)
    · exact ⟨t, vs, rfl, by simp [of_decide_eq_true good]⟩
    · obtain ⟨t, vs, rfl, member⟩ := otherwise.2 us a phrase
      exact ⟨t, vs, rfl, List.mem_cons_of_mem _ member⟩

theorem literal_reads {type : TokenType} {types : List TokenType} {value : Token → EvalFn}
    {p q : Parse EvalFn} {M : Language Token EvalFn} {more : Token → Prop}
    (taken : ∀ t ts, t.type = type →
      p (t :: ts) = take (source stod lexical) t (pure (value t)) (t :: ts))
    (otherwise : Reads (source stod lexical) (n + 1) q M more ∧ Begins types M)
    (new : type ∉ types) :
    Reads (source stod lexical) (n + 1) (check type >>= fun b => if b = true then p else q)
      (Language.either (one type value) M) more ∧
    Begins (type :: types) (Language.either (one type value) M) :=
  branch_reads taken (fun t _ => Reads.pure n (value t) more) (fun t => Language.empty_nonempty (value t))
    otherwise new

theorem refuse_reads (message : Str → Str) (more : Token → Prop) :
    Reads (source stod lexical) n (refuse message : Parse α) (fun _ _ => False) more ∧
      Begins [] (fun (_ : List Token) (_ : α) => False) :=
  ⟨Reads.refuse (refuse_refuses stod lexical message), fun _ _ never => never.elim⟩

/-- What `parsePrimary` reads, in the order of its branches. -/
def primary (stod : Str → Except NumberError Double) (inner : Language Token EvalFn) :
    Language Token EvalFn :=
  Language.either
    (Language.token (fun t => t.type = .LPAREN) fun _ =>
      Language.seq inner fun f => Language.seq (one .RPAREN id) fun _ => Language.empty f) <|
  Language.either (one .NULL_LIT fun _ _ => .null) <|
  Language.either (one .TRUE_LIT fun _ _ => .bool true) <|
  Language.either (one .FALSE_LIT fun _ _ => .bool false) <|
  Language.either (one .STRING fun t _ => .string t.text) <|
  Language.either (one .INT_LIT fun t => numeral .int64 (stoll t.text)) <|
  Language.either (one .FLOAT_LIT fun t => numeral .double (stod t.text)) <|
  Language.either (one .IDENT fun t msg => extractProperty msg t.text) fun _ _ => False

def primaryStarts : List TokenType :=
  [.LPAREN, .NULL_LIT, .TRUE_LIT, .FALSE_LIT, .STRING, .INT_LIT, .FLOAT_LIT, .IDENT]

theorem parsePrimary_reads {parseOr : Parse EvalFn} {inner : Language Token EvalFn}
    {more : Token → Prop} (reads : Reads (source stod lexical) n parseOr inner more)
    (some_ : inner.Nonempty) (closes : ∀ t : Token, t.type = .RPAREN → ¬ more t)
    (more' : Token → Prop) :
    Reads (source stod lexical) (n + 1) (parsePrimary stod lexical parseOr)
      (primary stod inner) more' ∧ Begins primaryStarts (primary stod inner) := by
  unfold parsePrimary primary
  apply branch_reads (k := fun _ => do
    let expr ← parseOr
    let _ ← consume lexical .RPAREN (str [')'])
    return expr)
  · intro t ts good
    exact advance_take stod lexical (by simp [good, isNumber]) _ ts
  · intro t good
    apply reads.bind
    · intro f
      apply (consume_reads (by simp [isNumber]) _ _).andThen (fun _ => Reads.pure _ _ more')
      intro _
      exact Language.empty_nonempty f
    · rintro f t us b ⟨vs, ws, a, cut, phrase, rfl, _⟩
      rw [List.append_nil] at cut
      subst cut
      exact closes t (one_head phrase)
    · rintro f b ⟨vs, ws, a, cut, phrase, rfl, _⟩
      rw [List.append_nil] at cut
      subst cut
      exact absurd phrase one_full
    · intro f
      exact (one_nonempty _ _).seq fun _ => Language.empty_nonempty f
  · intro t
    exact some_.seq fun f => (one_nonempty _ _).seq fun _ => Language.empty_nonempty f
  · apply literal_reads _ _ (by decide)
    · intro t ts good
      exact advance_take stod lexical (by simp [good, isNumber]) _ ts
    apply literal_reads _ _ (by decide)
    · intro t ts good
      exact advance_take stod lexical (by simp [good, isNumber]) _ ts
    apply literal_reads _ _ (by decide)
    · intro t ts good
      exact advance_take stod lexical (by simp [good, isNumber]) _ ts
    apply literal_reads _ _ (by decide)
    · intro t ts good
      exact current_take stod lexical (by simp [good, isNumber]) _ ts
    apply literal_reads _ _ (by decide)
    · intro t ts good
      exact number_take stod lexical (by simp [raises, good]) _ ts
    apply literal_reads _ _ (by decide)
    · intro t ts good
      exact number_take stod lexical (by simp [raises, good]) _ ts
    apply literal_reads _ (refuse_reads _ _) (by decide)
    · intro t ts good
      exact current_take stod lexical (by simp [good, isNumber]) _ ts
  · decide

end Primary

section Comparison
variable {stod : Str → Except NumberError Double} {lexical : Option Str} {n : Nat}

/-- The tokens that could go on with a comparison. -/
def continues (t : Token) : Prop :=
  t.type ∈ [TokenType.IS, .NOT, .BETWEEN, .IN, .LIKE] ∨ isRelational t.type = true

def range (P : Language Token EvalFn) (left : EvalFn) (negated : Bool) : Language Token EvalFn :=
  Language.seq P fun lo => Language.seq (one .AND id) fun _ => Language.seq P fun hi =>
    Language.empty (between left lo hi negated)

def moreItems (P : Language Token EvalFn) (items : List EvalFn) : Language Token (List EvalFn) :=
  Language.seq P fun item => Language.empty (items ++ [item])

def choices (P : Language Token EvalFn) (left : EvalFn) (negated : Bool) : Language Token EvalFn :=
  Language.seq (one .LPAREN id) fun _ => Language.seq P fun item =>
    Language.seq (Language.Chain (fun t => t.type = .COMMA) (moreItems P) [item]) fun items =>
      Language.seq (one .RPAREN id) fun _ => Language.empty (oneOf left items negated)

def pattern (left : EvalFn) (negated : Bool) : Language Token EvalFn :=
  Language.seq (one .STRING id) fun tok => Language.empty (like left (likeToRegex tok.text) negated)

def related (P : Language Token EvalFn) (left : EvalFn) : Language Token EvalFn :=
  Language.either
    (Language.token (fun t => isRelational t.type) fun op => Language.seq P fun right =>
      Language.empty (relation op.type left right))
    (Language.empty left)

/-- What `parseOperator` reads, in the order of its branches. -/
def operator (P : Language Token EvalFn) (left : EvalFn) (negated : Bool) :
    Language Token EvalFn :=
  Language.either (Language.token (fun t => t.type = .BETWEEN) fun _ => range P left negated) <|
  Language.either (Language.token (fun t => t.type = .IN) fun _ => choices P left negated) <|
  Language.either (Language.token (fun t => t.type = .LIKE) fun _ => pattern left negated) <|
  if negated = true then fun _ _ => False else related P left

section Operators
variable {parsePrimary : Parse EvalFn} {P : Language Token EvalFn}

theorem range_nonempty (some_ : P.Nonempty) (left : EvalFn) (negated : Bool) :
    (range P left negated).Nonempty :=
  some_.seq fun _ => (one_nonempty _ _).seq fun _ => some_.seq fun _ => Language.empty_nonempty _

theorem range_reads (reads : Reads (source stod lexical) n parsePrimary P fun _ => False)
    (some_ : P.Nonempty) (left : EvalFn) (negated : Bool) (more : Token → Prop) :
    Reads (source stod lexical) n
      (do
        let low ← parsePrimary
        let _ ← consume lexical .AND (str "AND".toList)
        let high ← parsePrimary
        return between left low high negated)
      (range P left negated) more := by
  apply reads.andThen
  · intro low
    apply (consume_reads (by simp [isNumber]) _ _).andThen
    · intro _
      apply reads.andThen (fun high => Reads.pure n (between left low high negated) more)
      intro _
      exact Language.empty_nonempty _
    · intro _
      exact some_.seq fun _ => Language.empty_nonempty _
  · intro _
    exact (one_nonempty _ _).seq fun _ => some_.seq fun _ => Language.empty_nonempty _

theorem moreItems_nonempty (some_ : P.Nonempty) (items : List EvalFn) :
    (moreItems P items).Nonempty := some_.seq fun _ => Language.empty_nonempty _

theorem items_reads (reads : Reads (source stod lexical) n parsePrimary P fun _ => False)
    (some_ : P.Nonempty) (items : List EvalFn) :
    Reads (source stod lexical) n (whileNext (fun t => t.type = .COMMA) (fun items => do
        advance lexical
        let item ← parsePrimary
        return items ++ [item]) items)
      (Language.Chain (fun t => t.type = .COMMA) (moreItems P) items)
      (fun t => t.type = .COMMA) := by
  apply Reads.mono _ (Nat.le_succ n)
  apply Reads.whileNext (k := fun items _ => do
    let item ← parsePrimary
    return items ++ [item])
  · intro items t ts good
    exact advance_take stod lexical (by simp [of_decide_eq_true good, isNumber]) _ ts
  · intro items t _
    apply reads.andThen (fun item => Reads.pure n (items ++ [item]) fun _ => False)
    intro _
    exact Language.empty_nonempty _
  · intro t _ never
    exact never
  · intro t never
    exact never.elim
  · intro t good
    exact of_decide_eq_true good
  · exact moreItems_nonempty some_

theorem closing_nonempty (left : EvalFn) (negated : Bool) (items : List EvalFn) :
    (Language.seq (one .RPAREN id) fun _ => Language.empty (oneOf left items negated)).Nonempty :=
  (one_nonempty _ _).seq fun _ => Language.empty_nonempty _

theorem items_nonempty (left : EvalFn) (negated : Bool) (items : List EvalFn) :
    (Language.seq (Language.Chain (fun t => t.type = .COMMA) (moreItems P) items) fun items =>
      Language.seq (one .RPAREN id) fun _ => Language.empty (oneOf left items negated)).Nonempty :=
  Language.Nonempty.seq ⟨[], items, .stop items⟩ (closing_nonempty left negated)

theorem choices_nonempty (some_ : P.Nonempty) (left : EvalFn) (negated : Bool) :
    (choices P left negated).Nonempty :=
  (one_nonempty _ _).seq fun _ => some_.seq fun item => items_nonempty left negated [item]

theorem choices_reads (reads : Reads (source stod lexical) n parsePrimary P fun _ => False)
    (some_ : P.Nonempty) (left : EvalFn) (negated : Bool) (more : Token → Prop) :
    Reads (source stod lexical) n
      (do
        let _ ← consume lexical .LPAREN (str ['('])
        let item ← parsePrimary
        let items ← whileNext (fun t => t.type = .COMMA) (fun items => do
          advance lexical
          let item ← parsePrimary
          return items ++ [item]) [item]
        let _ ← consume lexical .RPAREN (str [')'])
        return oneOf left items negated)
      (choices P left negated) more := by
  apply (consume_reads (by simp [isNumber]) _ _).andThen
  · intro _
    apply reads.andThen
    · intro item
      apply (items_reads reads some_ [item]).bind
      · intro items
        apply (consume_reads (by simp [isNumber]) _ _).andThen
        · intro _
          exact Reads.pure n (oneOf left items negated) more
        · intro _
          exact Language.empty_nonempty _
      · rintro items t us f ⟨vs, ws, a, cut, phrase, rfl, _⟩ comma
        rw [List.append_nil] at cut
        subst cut
        rw [one_head phrase] at comma
        cases comma
      · rintro items f ⟨vs, ws, a, cut, phrase, rfl, _⟩
        rw [List.append_nil] at cut
        subst cut
        exact absurd phrase one_full
      · exact closing_nonempty left negated
    · intro item
      exact items_nonempty left negated [item]
  · intro _
    exact some_.seq fun item => items_nonempty left negated [item]

theorem pattern_reads (left : EvalFn) (negated : Bool) (more : Token → Prop) :
    Reads (source stod lexical) n
      (do
        let patTok ← consume lexical .STRING (str "pattern string".toList)
        return like left (likeToRegex patTok.text) negated)
      (pattern left negated) more := by
  apply (consume_reads (by simp [isNumber]) _ _).andThen
  · intro tok
    exact Reads.pure n (like left (likeToRegex tok.text) negated) more
  · intro _
    exact Language.empty_nonempty _

theorem isRelational_types {type : TokenType} (good : isRelational type = true) :
    type ∈ [TokenType.EQ, .NEQ, .LT, .LTE, .GT, .GTE] := by
  revert good
  cases type <;> decide

theorem isRelational_type {type : TokenType} (good : isRelational type = true) :
    ∃ op : Relation, type = op.type := by
  cases type with
  | EQ => exact ⟨.EQ, rfl⟩
  | NEQ => exact ⟨.NEQ, rfl⟩
  | LT => exact ⟨.LT, rfl⟩
  | LTE => exact ⟨.LTE, rfl⟩
  | GT => exact ⟨.GT, rfl⟩
  | GTE => exact ⟨.GTE, rfl⟩
  | _ => cases good

theorem related_reads (reads : Reads (source stod lexical) n parsePrimary P fun _ => False)
    (some_ : P.Nonempty) (left : EvalFn) :
    Reads (source stod lexical) (n + 1)
      (do
        if ← nextIs fun t => isRelational t.type then
          let op ← current
          advance lexical
          let right ← parsePrimary
          return relation op.type left right
        else return left)
      (related P left) continues ∧
    Starts [TokenType.EQ, .NEQ, .LT, .LTE, .GT, .GTE] (related P left) := by
  constructor
  · apply Reads.branch (k := fun op => do
      let right ← parsePrimary
      return relation op.type left right)
    · intro t ts good
      refine current_take stod lexical ?_ _ ts
      rintro (int | float)
      · rw [int] at good
        cases good
      · rw [float] at good
        cases good
    · intro op _
      apply reads.andThen (fun right => Reads.pure n (relation op.type left right) _)
      intro _
      exact Language.empty_nonempty _
    · exact Reads.pure (n + 1) left continues
    · rintro t us f ⟨nothing, _⟩
      cases nothing
    · intro f _ t good
      exact .inr good
    · intro op _
      exact some_.seq fun _ => Language.empty_nonempty _
  · rintro t us f (⟨t', vs, same, good, _⟩ | ⟨nothing, _⟩)
    · obtain ⟨rfl, -⟩ := List.cons.inj same
      exact isRelational_types good
    · cases nothing

theorem parseOperator_reads (reads : Reads (source stod lexical) n parsePrimary P fun _ => False)
    (some_ : P.Nonempty) (left : EvalFn) (negated : Bool) :
    Reads (source stod lexical) (n + 1) (parseOperator lexical parsePrimary left negated)
      (operator P left negated) continues ∧
    Starts [.BETWEEN, .IN, .LIKE, .EQ, .NEQ, .LT, .LTE, .GT, .GTE] (operator P left negated) := by
  have goes : ∀ {type : TokenType}, type ∈ [TokenType.IS, .NOT, .BETWEEN, .IN, .LIKE] →
      ∀ t : Token, t.type = type → continues t := by
    intro type member t good
    exact .inl (by rwa [good])
  apply option_reads (k := fun _ => _) _ (fun _ _ => range_reads reads some_ left negated _)
    (fun _ => range_nonempty some_ left negated) _ (by decide)
    (fun _ _ => goes (by decide))
  · intro t ts good
    exact advance_take stod lexical (by simp [good, isNumber]) _ ts
  apply option_reads (k := fun _ => _) _ (fun _ _ => choices_reads reads some_ left negated _)
    (fun _ => choices_nonempty some_ left negated) _ (by decide)
    (fun _ _ => goes (by decide))
  · intro t ts good
    exact advance_take stod lexical (by simp [good, isNumber]) _ ts
  apply option_reads (k := fun _ => _) _ (fun _ _ => pattern_reads left negated _)
    (fun _ => (one_nonempty _ _).seq fun _ => Language.empty_nonempty _) _ (by decide)
    (fun _ _ => goes (by decide))
  · intro t ts good
    exact advance_take stod lexical (by simp [good, isNumber]) _ ts
  cases negated with
  | true => exact ⟨Reads.refuse fun ts => ⟨_, ⟨_, rfl⟩, rfl⟩, fun _ _ _ never => never.elim⟩
  | false => exact related_reads reads some_ left

end Operators
/-- What `parseComparison` reads. -/
def comparison (P : Language Token EvalFn) : Language Token EvalFn :=
  Language.seq P fun left =>
    Language.either
      (Language.token (fun t => t.type = .IS) fun _ =>
        Language.seq (fun us negated => Negation negated us) fun negated =>
          Language.seq (one .NULL_LIT id) fun _ => Language.empty (nullTest left negated))
      (Language.seq (fun us negated => Negation negated us) (operator P left))

theorem negation_nonempty : Language.Nonempty fun us negated => Negation negated us :=
  ⟨[], false, .absent⟩

theorem operator_nonempty (P : Language Token EvalFn) (left : EvalFn) (negated : Bool) :
    (operator P left negated).Nonempty := by
  obtain ⟨us, f, phrase⟩ : (Language.token (fun t : Token => t.type = .LIKE)
      fun _ => pattern left negated).Nonempty :=
    Language.Nonempty.token (t := ⟨.LIKE, []⟩) (decide_eq_true rfl)
      ((one_nonempty _ _).seq fun _ => Language.empty_nonempty _)
  exact ⟨us, f, .inr (.inr (.inl phrase))⟩

theorem negatable_reads {parsePrimary : Parse EvalFn} {P : Language Token EvalFn}
    (reads : Reads (source stod lexical) n parsePrimary P fun _ => False)
    (some_ : P.Nonempty) (left : EvalFn) :
    Reads (source stod lexical) (n + 1)
      (do
        let negated ← accept lexical .NOT
        parseOperator lexical parsePrimary left negated)
      (Language.seq (fun us negated => Negation negated us) (operator P left)) continues ∧
    Starts [.NOT, .BETWEEN, .IN, .LIKE, .EQ, .NEQ, .LT, .LTE, .GT, .GTE]
      (Language.seq (fun us negated => Negation negated us) (operator P left)) := by
  have operators := parseOperator_reads reads some_ left
  constructor
  · apply accept_reads.bind
    · intro negated
      exact (operators negated).1
    · intro negated t us f phrase not
      have member := (operators negated).2 t us f phrase
      rw [not] at member
      revert member
      decide
    · intro _ _ _ t not
      exact .inl (by simp [not])
    · exact operator_nonempty P left
  · rintro t us f ⟨vs, ws, negated, cut, negation, phrase⟩
    cases negation with
    | absent =>
      rw [List.nil_append] at cut
      subst cut
      exact List.mem_cons_of_mem _ ((operators false).2 t us f phrase)
    | present not =>
      obtain ⟨rfl, -⟩ := List.cons.inj cut
      simp [not]

theorem nullTest_reads (left : EvalFn) :
    Reads (source stod lexical) n
      (do
        let negated ← accept lexical .NOT
        let _ ← consume lexical .NULL_LIT (str "NULL".toList)
        return nullTest left negated)
      (Language.seq (fun us negated => Negation negated us) fun negated =>
        Language.seq (one .NULL_LIT id) fun _ => Language.empty (nullTest left negated))
      continues := by
  apply accept_reads.bind
  · intro negated
    apply (consume_reads (by simp [isNumber]) _ _).andThen
    · intro _
      exact Reads.pure n (nullTest left negated) continues
    · intro _
      exact Language.empty_nonempty _
  · rintro negated t us f ⟨vs, ws, a, cut, phrase, rfl, _⟩ not
    rw [List.append_nil] at cut
    subst cut
    rw [one_head phrase] at not
    cases not
  · rintro negated f ⟨vs, ws, a, cut, phrase, rfl, _⟩
    rw [List.append_nil] at cut
    subst cut
    exact absurd phrase one_full
  · intro _
    exact (one_nonempty _ _).seq fun _ => Language.empty_nonempty _

theorem parseComparison_reads {parsePrimary : Parse EvalFn} {P : Language Token EvalFn}
    (reads : Reads (source stod lexical) (n + 1) parsePrimary P fun _ => False)
    (some_ : P.Nonempty) :
    Reads (source stod lexical) (n + 1) (parseComparison lexical parsePrimary) (comparison P)
      continues := by
  apply reads.andThen
  · intro left
    have operators := negatable_reads (reads.mono (Nat.le_succ n)) some_ left
    apply (option_reads (k := fun _ => _) _ (fun _ _ => nullTest_reads left) _ operators (by decide)
      _).1
    · intro t ts good
      exact advance_take stod lexical (by simp [good, isNumber]) _ ts
    · intro t
      exact negation_nonempty.seq fun _ =>
        (one_nonempty _ _).seq fun _ => Language.empty_nonempty _
    · intro _ _ t good
      exact .inl (by simp [good])
  · intro left
    obtain ⟨us, f, phrase⟩ := negation_nonempty.seq (operator_nonempty P left)
    exact ⟨us, f, .inr phrase⟩

end Comparison

end TinyMqSelectorReading
