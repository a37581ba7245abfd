import TinyMq.Broker.Selector

/-!
The grammar of selectors: which token sequences are an expression, the tree that each of
them has, its value on a message, and how a tree is printed.
-/
namespace TinyMqSelectorGrammar
open Doubles TinyMqMessage TinyMqWireFormat TinyMqSelector

section Trees

inductive Relation where
  | EQ
  | NEQ
  | LT
  | LTE
  | GT
  | GTE
  deriving DecidableEq

def Relation.type : Relation → TokenType
  | EQ => .EQ
  | NEQ => .NEQ
  | LT => .LT
  | LTE => .LTE
  | GT => .GT
  | GTE => .GTE

/-- A derivation tree without its parentheses; a number is kept as it is written. -/
inductive Expr where
  | null
  | bool (v : Bool)
  | string (text : Str)
  | int (text : Str)
  | float (text : Str)
  | ident (name : Str)
  | compare (op : Relation) (l r : Expr)
  | isNull (l : Expr) (negated : Bool)
  | between (l lo hi : Expr) (negated : Bool)
  | oneOf (l item : Expr) (items : List Expr) (negated : Bool)
  | like (l : Expr) (pattern : Str) (negated : Bool)
  | not (e : Expr)
  | and (l r : Expr)
  | or (l r : Expr)

variable (stod : Str → Except NumberError Double)

def numeral (make : β → SelectorValue) : Except NumberError β → EvalFn
  | .ok v => fun _ => make v
  | .error _ => fun _ => .null

mutual

def Expr.eval : Expr → EvalFn
  | .null => fun _ => .null
  | .bool v => fun _ => .bool v
  | .string text => fun _ => .string text
  | .int text => numeral .int64 (stoll text)
  | .float text => numeral .double (stod text)
  | .ident name => fun msg => extractProperty msg name
  | .compare op l r => relation op.type l.eval r.eval
  | .isNull l negated => nullTest l.eval negated
  | .between l lo hi negated => TinyMqSelector.between l.eval lo.eval hi.eval negated
  | .oneOf l item items negated => TinyMqSelector.oneOf l.eval (item.eval :: evalItems items) negated
  | .like l pattern negated => TinyMqSelector.like l.eval (likeToRegex pattern) negated
  | .not e => negation e.eval
  | .and l r => conjunction l.eval r.eval
  | .or l r => disjunction l.eval r.eval

def evalItems : List Expr → List EvalFn
  | [] => []
  | e :: es => e.eval :: evalItems es

end

/-- Induction over trees: the items of an IN are parts of it. -/
theorem Expr.induction {P : Expr → Prop} (null : P .null) (bool : ∀ v, P (.bool v))
    (string : ∀ text, P (.string text)) (int : ∀ text, P (.int text))
    (float : ∀ text, P (.float text)) (ident : ∀ name, P (.ident name))
    (compare : ∀ op l r, P l → P r → P (.compare op l r))
    (isNull : ∀ l negated, P l → P (.isNull l negated))
    (between : ∀ l lo hi negated, P l → P lo → P hi → P (.between l lo hi negated))
    (oneOf : ∀ l item items negated, P l → P item → (∀ e ∈ items, P e) →
      P (.oneOf l item items negated))
    (like : ∀ l pattern negated, P l → P (.like l pattern negated)) (not : ∀ e, P e → P (.not e))
    (and : ∀ l r, P l → P r → P (.and l r)) (or : ∀ l r, P l → P r → P (.or l r)) (e : Expr) :
    P e := by
  apply @Expr.rec P (fun es => ∀ e ∈ es, P e) null bool string int float ident compare isNull
    between oneOf like not and or
  · intro e member
    cases member
  · intro e es head tail e' member
    rcases List.mem_cons.mp member with rfl | later
    · exact head
    · exact tail e' later

theorem evalItems_map (es : List Expr) : evalItems stod es = es.map (Expr.eval stod) := by
  induction es with
  | nil => rfl
  | cons e es ih => simp [evalItems, ih]

end Trees

section Grammar

/-- The nonterminals of the grammar. Those of a repetition know what stands before it. -/
inductive Nonterminal where
  | or_expr
  | or_rest (l : Expr)
  | and_expr
  | and_rest (l : Expr)
  | not_expr
  | comparison
  | in_rest (l item : Expr) (items : List Expr) (negated : Bool)
  | primary

inductive Negation : Bool → List Token → Prop where
  | absent : Negation false []
  | present {t : Token} : t.type = .NOT → Negation true [t]

inductive Derives : Nonterminal → List Token → Expr → Prop where
  -- or_expr := and_expr (OR and_expr)*
  | or_expr {us vs : List Token} {l e : Expr} :
      Derives .and_expr us l → Derives (.or_rest l) vs e → Derives .or_expr (us ++ vs) e
  | or_end {l : Expr} : Derives (.or_rest l) [] l
  | or_more {t : Token} {us vs : List Token} {l r e : Expr} :
      t.type = .OR → Derives .and_expr us r → Derives (.or_rest (.or l r)) vs e →
      Derives (.or_rest l) (t :: (us ++ vs)) e
  -- and_expr := not_expr (AND not_expr)*
  | and_expr {us vs : List Token} {l e : Expr} :
      Derives .not_expr us l → Derives (.and_rest l) vs e → Derives .and_expr (us ++ vs) e
  | and_end {l : Expr} : Derives (.and_rest l) [] l
  | and_more {t : Token} {us vs : List Token} {l r e : Expr} :
      t.type = .AND → Derives .not_expr us r → Derives (.and_rest (.and l r)) vs e →
      Derives (.and_rest l) (t :: (us ++ vs)) e
  -- not_expr := NOT not_expr | comparison
  | not_not {t : Token} {us : List Token} {e : Expr} :
      t.type = .NOT → Derives .not_expr us e → Derives .not_expr (t :: us) (.not e)
  | not_comparison {us : List Token} {e : Expr} :
      Derives .comparison us e → Derives .not_expr us e
  -- comparison := primary (...)?
  | bare {us : List Token} {e : Expr} : Derives .primary us e → Derives .comparison us e
  | is_null {us ns : List Token} {l : Expr} {negated : Bool} {is null : Token} :
      Derives .primary us l → is.type = .IS → Negation negated ns → null.type = .NULL_LIT →
      Derives .comparison (us ++ is :: (ns ++ [null])) (.isNull l negated)
  | between {us ns vs ws : List Token} {l lo hi : Expr} {negated : Bool} {between and : Token} :
      Derives .primary us l → Negation negated ns → between.type = .BETWEEN →
      Derives .primary vs lo → and.type = .AND → Derives .primary ws hi →
      Derives .comparison (us ++ (ns ++ between :: (vs ++ and :: ws))) (.between l lo hi negated)
  | one_of {us ns vs ws : List Token} {l item e : Expr} {negated : Bool} {isIn opens closes : Token} :
      Derives .primary us l → Negation negated ns → isIn.type = .IN → opens.type = .LPAREN →
      Derives .primary vs item → Derives (.in_rest l item [] negated) ws e → closes.type = .RPAREN →
      Derives .comparison (us ++ (ns ++ isIn :: opens :: (vs ++ (ws ++ [closes])))) e
  | in_end {l item : Expr} {items : List Expr} {negated : Bool} :
      Derives (.in_rest l item items negated) [] (.oneOf l item items negated)
  | in_more {t : Token} {us vs : List Token} {l item r e : Expr} {items : List Expr}
      {negated : Bool} :
      t.type = .COMMA → Derives .primary us r →
      Derives (.in_rest l item (items ++ [r]) negated) vs e →
      Derives (.in_rest l item items negated) (t :: (us ++ vs)) e
  | like {us ns : List Token} {l : Expr} {negated : Bool} {like pattern : Token} :
      Derives .primary us l → Negation negated ns → like.type = .LIKE → pattern.type = .STRING →
      Derives .comparison (us ++ (ns ++ [like, pattern])) (.like l pattern.text negated)
  | compare {us vs : List Token} {l r : Expr} {op : Relation} {t : Token} :
      Derives .primary us l → t.type = op.type → Derives .primary vs r →
      Derives .comparison (us ++ t :: vs) (.compare op l r)
  -- primary := '(' expression ')' | NULL | TRUE | FALSE | STRING | INT | FLOAT | IDENT
  | parens {us : List Token} {e : Expr} {opens closes : Token} :
      opens.type = .LPAREN → Derives .or_expr us e → closes.type = .RPAREN →
      Derives .primary (opens :: (us ++ [closes])) e
  | null {t : Token} : t.type = .NULL_LIT → Derives .primary [t] .null
  | true_ {t : Token} : t.type = .TRUE_LIT → Derives .primary [t] (.bool true)
  | false_ {t : Token} : t.type = .FALSE_LIT → Derives .primary [t] (.bool false)
  | string {t : Token} : t.type = .STRING → Derives .primary [t] (.string t.text)
  | int {t : Token} : t.type = .INT_LIT → Derives .primary [t] (.int t.text)
  | float {t : Token} : t.type = .FLOAT_LIT → Derives .primary [t] (.float t.text)
  | ident {t : Token} : t.type = .IDENT → Derives .primary [t] (.ident t.text)

end Grammar
section Printing

def word (type : TokenType) (text : String) : Token := ⟨type, str text.toList⟩

def Relation.token : Relation → Token
  | EQ => word .EQ "="
  | NEQ => word .NEQ "<>"
  | LT => word .LT "<"
  | LTE => word .LTE "<="
  | GT => word .GT ">"
  | GTE => word .GTE ">="

/-- How tightly the operator of a tree binds, from OR on. -/
def Expr.level : Expr → Nat
  | .or _ _ => 0
  | .and _ _ => 1
  | .not _ => 2
  | .compare _ _ _ | .isNull _ _ | .between _ _ _ _ | .oneOf _ _ _ _ | .like _ _ _ => 3
  | _ => 4

/-- Parentheses about what binds less tightly than its place asks for. -/
def enclose (least : Nat) (e : Expr) (ts : List Token) : List Token :=
  if e.level < least then word .LPAREN "(" :: (ts ++ [word .RPAREN ")"]) else ts

def printNot (negated : Bool) : List Token := if negated then [word .NOT "NOT"] else []

mutual

/-- A tree with the parentheses that it needs, and no others. -/
def Expr.print : Expr → List Token
  | .null => [word .NULL_LIT "NULL"]
  | .bool v => [if v then word .TRUE_LIT "TRUE" else word .FALSE_LIT "FALSE"]
  | .string text => [⟨.STRING, text⟩]
  | .int text => [⟨.INT_LIT, text⟩]
  | .float text => [⟨.FLOAT_LIT, text⟩]
  | .ident name => [⟨.IDENT, name⟩]
  | .compare op l r => enclose 4 l l.print ++ op.token :: enclose 4 r r.print
  | .isNull l negated =>
    enclose 4 l l.print ++ word .IS "IS" :: (printNot negated ++ [word .NULL_LIT "NULL"])
  | .between l lo hi negated =>
    enclose 4 l l.print ++ (printNot negated ++ word .BETWEEN "BETWEEN" ::
      (enclose 4 lo lo.print ++ word .AND "AND" :: enclose 4 hi hi.print))
  | .oneOf l item items negated =>
    enclose 4 l l.print ++ (printNot negated ++ word .IN "IN" :: word .LPAREN "(" ::
      (enclose 4 item item.print ++ (printItems items ++ [word .RPAREN ")"])))
  | .like l pattern negated =>
    enclose 4 l l.print ++ (printNot negated ++ [word .LIKE "LIKE", ⟨.STRING, pattern⟩])
  | .not e => word .NOT "NOT" :: enclose 2 e e.print
  | .and l r => enclose 1 l l.print ++ word .AND "AND" :: enclose 2 r r.print
  | .or l r => enclose 0 l l.print ++ word .OR "OR" :: enclose 1 r r.print

def printItems : List Expr → List Token
  | [] => []
  | e :: es => word .COMMA "," :: (enclose 4 e e.print ++ printItems es)

end

def nonterminal : Nat → Nonterminal
  | 0 => .or_expr
  | 1 => .and_expr
  | 2 => .not_expr
  | 3 => .comparison
  | _ => .primary

theorem loosen {k : Nat} {us : List Token} {e : Expr} (d : Derives (nonterminal (k + 1)) us e) :
    Derives (nonterminal k) us e := by
  match k with
  | 0 =>
    have whole := Derives.or_expr d .or_end
    rwa [List.append_nil] at whole
  | 1 =>
    have whole := Derives.and_expr d .and_end
    rwa [List.append_nil] at whole
  | 2 => exact .not_comparison d
  | 3 => exact .bare d
  | _ + 4 => exact d

theorem loosen_to {k : Nat} (j : Nat) {us : List Token} {e : Expr}
    (d : Derives (nonterminal (j + k)) us e) : Derives (nonterminal j) us e := by
  induction k with
  | zero => exact d
  | succ k ih => exact ih (loosen d)

theorem enclose_derives {ts : List Token} {e : Expr} (d : Derives (nonterminal e.level) ts e)
    (least : Nat) (low : least ≤ 4) : Derives (nonterminal least) (enclose least e ts) e := by
  unfold enclose
  split
  · have whole : Derives (nonterminal 0) ts e := by
      apply loosen_to (k := e.level)
      rwa [Nat.zero_add]
    have enclosed : Derives (nonterminal 4) (word .LPAREN "(" :: (ts ++ [word .RPAREN ")"])) e :=
      .parens rfl whole rfl
    apply loosen_to (k := 4 - least)
    rwa [Nat.add_sub_cancel' low]
  · apply loosen_to (k := e.level - least)
    rwa [Nat.add_sub_cancel' (by omega)]

def Extends (nt : Nonterminal) (us : List Token) (l : Expr) : Prop :=
  match nt with
  | .or_rest a => ∀ (t : Token) vs r, t.type = .OR → Derives .and_expr vs r →
      Derives (.or_rest a) (us ++ t :: vs) (.or l r)
  | .and_rest a => ∀ (t : Token) vs r, t.type = .AND → Derives .not_expr vs r →
      Derives (.and_rest a) (us ++ t :: vs) (.and l r)
  | _ => True

theorem rest_extends {nt : Nonterminal} {us : List Token} {l : Expr} (d : Derives nt us l) :
    Extends nt us l := by
  induction d with
  | or_end =>
    intro t vs r good d
    simpa using Derives.or_more good d .or_end
  | or_more good first _ _ ih =>
    intro t vs r good' d
    simpa using Derives.or_more good first (ih t vs r good' d)
  | and_end =>
    intro t vs r good d
    simpa using Derives.and_more good d .and_end
  | and_more good first _ _ ih =>
    intro t vs r good' d
    simpa using Derives.and_more good first (ih t vs r good' d)
  | _ => trivial

theorem or_snoc {us vs : List Token} {l r : Expr} {t : Token} (d : Derives .or_expr us l)
    (good : t.type = .OR) (d' : Derives .and_expr vs r) :
    Derives .or_expr (us ++ t :: vs) (.or l r) := by
  cases d with
  | or_expr first rest =>
    rw [List.append_assoc]
    exact .or_expr first (rest_extends rest t vs r good d')

theorem and_snoc {us vs : List Token} {l r : Expr} {t : Token} (d : Derives .and_expr us l)
    (good : t.type = .AND) (d' : Derives .not_expr vs r) :
    Derives .and_expr (us ++ t :: vs) (.and l r) := by
  cases d with
  | and_expr first rest =>
    rw [List.append_assoc]
    exact .and_expr first (rest_extends rest t vs r good d')

theorem printItems_derives {l item : Expr} {negated : Bool} {items : List Expr}
    (each : ∀ e ∈ items, Derives .primary (enclose 4 e e.print) e) (before : List Expr) :
    Derives (.in_rest l item before negated) (printItems items)
      (.oneOf l item (before ++ items) negated) := by
  induction items generalizing before with
  | nil => simpa [printItems] using Derives.in_end
  | cons e es ih =>
    have later := ih (fun e' member => each e' (List.mem_cons_of_mem e member)) (before ++ [e])
    rw [List.append_assoc] at later
    exact .in_more rfl (each e List.mem_cons_self) later

theorem printNot_negation (negated : Bool) : Negation negated (printNot negated) := by
  cases negated with
  | true => exact .present rfl
  | false => exact .absent

theorem print_derives (e : Expr) : Derives (nonterminal e.level) e.print e := by
  induction e using Expr.induction with
  | null => exact .null rfl
  | bool v =>
    cases v with
    | true => exact .true_ rfl
    | false => exact .false_ rfl
  | string text => exact .string (t := ⟨.STRING, text⟩) rfl
  | int text => exact .int (t := ⟨.INT_LIT, text⟩) rfl
  | float text => exact .float (t := ⟨.FLOAT_LIT, text⟩) rfl
  | ident name => exact .ident (t := ⟨.IDENT, name⟩) rfl
  | compare op l r left right =>
    have same : op.token.type = op.type := by cases op <;> rfl
    exact .compare (enclose_derives left 4 (Nat.le_refl 4)) same
      (enclose_derives right 4 (Nat.le_refl 4))
  | isNull l negated left =>
    exact .is_null (enclose_derives left 4 (Nat.le_refl 4)) rfl (printNot_negation negated) rfl
  | between l lo hi negated left low high =>
    exact .between (enclose_derives left 4 (Nat.le_refl 4)) (printNot_negation negated) rfl
      (enclose_derives low 4 (Nat.le_refl 4)) rfl (enclose_derives high 4 (Nat.le_refl 4))
  | oneOf l item items negated left first each =>
    exact .one_of (enclose_derives left 4 (Nat.le_refl 4)) (printNot_negation negated) rfl rfl
      (enclose_derives first 4 (Nat.le_refl 4))
      (printItems_derives (fun e member => enclose_derives (each e member) 4 (Nat.le_refl 4)) []) rfl
  | like l pattern negated left =>
    exact @Derives.like _ _ _ _ _ ⟨.STRING, pattern⟩ (enclose_derives left 4 (Nat.le_refl 4))
      (printNot_negation negated) rfl rfl
  | not e inner => exact .not_not rfl (enclose_derives inner 2 (by decide))
  | and l r left right =>
    exact and_snoc (enclose_derives left 1 (by decide)) rfl
      (enclose_derives right 2 (by decide))
  | or l r left right =>
    exact or_snoc (enclose_derives left 0 (by decide)) rfl
      (enclose_derives right 1 (by decide))

theorem print_whole (e : Expr) : Derives .or_expr e.print e := by
  apply loosen_to (k := e.level) 0
  rw [Nat.zero_add]
  exact print_derives e

end Printing
end TinyMqSelectorGrammar
