import TinyMq.Lib.Doubles
import TinyMq.Lib.TopDown
import TinyMq.Broker.WireFormat

/-!
`Selector.cpp`: the values of a selector, the closures that evaluate it, and the parser
that builds them from tokens. `std::stod` is a parameter: whether a number too small for
a double is an error is left to the platform.
-/
namespace TinyMqSelector
open DelimitedText AssocLists Doubles TopDown TinyMqMessage TinyMqWireFormat

section Values

/-- `SelectorValue`; SQL's NULL is its `std::monostate`. -/
inductive SelectorValue where
  | null
  | bool (v : Bool)
  | int64 (v : BitVec 64)
  | double (v : Double)
  | string (v : Str)
  deriving DecidableEq

def SelectorValue.index : SelectorValue → Nat
  | null => 0
  | bool _ => 1
  | int64 _ => 2
  | double _ => 3
  | string _ => 4

def extractProperty (ps : Properties) (name : Str) : SelectorValue :=
  match get ps name with
  | none => .null
  | some (.null _) => .null
  | some (.value v) => match v with
    | .boolean v => .bool v
    | .string v => .string v
    | .integer v => .int64 (v.signExtend 64)
    | .long v => .int64 v
    | .short v => .int64 (v.signExtend 64)
    | .byte v => .int64 (v.toBitVec.signExtend 64)
    | .double bits => .double bits
    | .float bits => .double (ofFloat bits)
    | .character v => .string [v]
    | .bytes _ => .null

/-- Only asked of numbers. -/
def toDouble : SelectorValue → Double
  | .int64 v => ofInt v.toInt
  | .double v => v
  | _ => 0

def isNumeric : SelectorValue → Bool
  | .int64 _ | .double _ => true
  | _ => false

def selEQ (a b : SelectorValue) : Bool :=
  if a = .null || b = .null then false
  else if isNumeric a && isNumeric b then Doubles.eq (toDouble a) (toDouble b)
  else if a.index ≠ b.index then false
  else a = b

def selLT (a b : SelectorValue) : Bool :=
  if !isNumeric a || !isNumeric b then false else Doubles.lt (toDouble a) (toDouble b)

def selGT (a b : SelectorValue) : Bool := selLT b a
def selLTE (a b : SelectorValue) : Bool := selEQ a b || selLT a b
def selGTE (a b : SelectorValue) : Bool := selEQ a b || selGT a b

end Values

section Like

def byte (c : Char) : UInt8 := UInt8.ofNat c.toNat

/-- What has a meaning in an expression of the ECMAScript grammar. -/
def special : Str :=
  str ['.', '^', '$', '*', '+', '?', '(', ')', '[', ']', '{', '}', '|', '\\']

def likeToRegex (pattern : Str) : Str :=
  [byte '^'] ++ pattern.flatMap (fun ch =>
    if ch = byte '%' then str ['.', '*']
    else if ch = byte '_' then [byte '.']
    else if ch ∈ special then [byte '\\', ch]
    else [ch]) ++ [byte '$']

/-- What a regular expression from `likeToRegex` is made of. -/
inductive Atom where
  | char (c : UInt8)
  | any
  | many
  deriving DecidableEq

def atoms : Str → List Atom
  | [] => []
  | [c] => if c = byte '.' then [.any] else [.char c]
  | c :: d :: re =>
    if c = byte '.' then if d = byte '*' then .many :: atoms re else .any :: atoms (d :: re)
    else if c = byte '\\' then .char d :: atoms re
    else .char c :: atoms (d :: re)

/-- The dot of the ECMAScript grammar takes no line terminator. -/
def isLineTerminator (c : UInt8) : Bool := c = byte '\n' || c = byte '\r'

def matchMany (rest : Str → Bool) : Str → Bool
  | [] => rest []
  | c :: s => rest (c :: s) || (!isLineTerminator c && matchMany rest s)

def matchAtoms : List Atom → Str → Bool
  | [], s => s.isEmpty
  | .many :: re, s => matchMany (matchAtoms re) s
  | .any :: re, s => match s with
    | [] => false
    | c :: s => !isLineTerminator c && matchAtoms re s
  | .char d :: re, s => match s with
    | [] => false
    | c :: s => c = d && matchAtoms re s

/-- `std::regex_match` with an expression from `likeToRegex`, between its two anchors. -/
def regexMatch (s regex : Str) : Bool := matchAtoms (atoms regex.tail.dropLast) s

example : regexMatch (str ['J', 'a', 'm', 'e', 's']) (likeToRegex (str ['J', '%', 'm', '_', 's'])) =
    true := by decide

end Like

section Tokens

inductive TokenType where
  | IDENT
  | STRING
  | INT_LIT
  | FLOAT_LIT
  | TRUE_LIT
  | FALSE_LIT
  | NULL_LIT
  | AND
  | OR
  | NOT
  | LIKE
  | BETWEEN
  | IN
  | IS
  | EQ
  | NEQ
  | LT
  | LTE
  | GT
  | GTE
  | LPAREN
  | RPAREN
  | COMMA
  | EOF_TOKEN
  deriving DecidableEq

structure Token where
  type : TokenType
  text : Str
  deriving DecidableEq

/-- What `std::stoll` and `std::stod` throw. -/
inductive NumberError where
  | invalid_argument
  | out_of_range
  deriving DecidableEq

/-- What the parser throws. `exhausted` is no exception of the source: it says that the
    depth allowed to the recursion was too small, and `parseExpression` allows enough. -/
inductive Thrown where
  | InvalidSelectorException (message : Str)
  | number (e : NumberError)
  | exhausted
  deriving DecidableEq

def isDigit (c : UInt8) : Bool := byte '0' ≤ c && c ≤ byte '9'

def digitsValue (digits : Str) : Nat := digits.foldl (fun n c => 10 * n + (c.toNat - 48)) 0

/-- The sign of a number, and what is behind it. -/
def readSign (text : Str) : Bool × Str :=
  match text.dropWhile fun c => isSpace (Char.ofNat c.toNat) with
  | [] => (false, [])
  | c :: rest =>
    if c = byte '-' then (true, rest) else if c = byte '+' then (false, rest)
    else (false, c :: rest)

/-- `std::stoll`; what stands behind the digits is left alone. -/
def stoll (text : Str) : Except NumberError (BitVec 64) :=
  let (negative, rest) := readSign text
  let digits := rest.takeWhile isDigit
  let n : Int := if negative then -(digitsValue digits : Int) else digitsValue digits
  if digits = [] then .error .invalid_argument
  else if n < -9223372036854775808 || 9223372036854775807 < n then .error .out_of_range
  else .ok (BitVec.ofInt 64 n)

/-- `std::stod` of a decimal literal on a platform that takes a number too small for a
    double for what it rounds to. -/
def readDouble (text : Str) : Except NumberError Double :=
  let (negative, rest) := readSign text
  let whole := rest.takeWhile isDigit
  let fraction := ((rest.dropWhile isDigit).drop 1).takeWhile isDigit
  let magnitude := nearest (digitsValue (whole ++ fraction)) (10 ^ fraction.length)
  if whole ++ fraction = [] then .error .invalid_argument
  else if infinite ≤ magnitude then .error .out_of_range
  else .ok (signed negative magnitude)

end Tokens

section Closures

abbrev EvalFn := Properties → SelectorValue

/-- The closure of `parseOr`. -/
def disjunction (l r : EvalFn) : EvalFn := fun msg =>
  let lv := l msg
  if lv = .bool true then .bool true
  else
    let rv := r msg
    if rv = .bool true then .bool true
    else match lv, rv with
      | .bool _, .bool _ => .bool false
      | _, _ => .null

/-- The closure of `parseAnd`. -/
def conjunction (l r : EvalFn) : EvalFn := fun msg =>
  let lv := l msg
  if lv = .bool false then .bool false
  else
    let rv := r msg
    if rv = .bool false then .bool false
    else match lv, rv with
      | .bool _, .bool _ => .bool true
      | _, _ => .null

/-- The closure of `parseNot`. -/
def negation (e : EvalFn) : EvalFn := fun msg =>
  match e msg with
  | .bool v => .bool !v
  | _ => .null

def orNegated (negated result : Bool) : SelectorValue := .bool (if negated then !result else result)

/-- `IS [NOT] NULL`. -/
def nullTest (l : EvalFn) (negated : Bool) : EvalFn := fun msg => orNegated negated (l msg = .null)

/-- `[NOT] BETWEEN`. -/
def between (l lo hi : EvalFn) (negated : Bool) : EvalFn := fun msg =>
  let lv := l msg
  orNegated negated (selGTE lv (lo msg) && selLTE lv (hi msg))

/-- `[NOT] IN`. -/
def oneOf (l : EvalFn) (items : List EvalFn) (negated : Bool) : EvalFn := fun msg =>
  let lv := l msg
  if lv = .null then .null
  else if items.any fun item => selEQ lv (item msg) then .bool !negated
  else .bool negated

/-- `[NOT] LIKE`. -/
def like (l : EvalFn) (regex : Str) (negated : Bool) : EvalFn := fun msg =>
  match l msg with
  | .string v => orNegated negated (regexMatch v regex)
  | _ => .null

/-- The relational operators. -/
def relation (op : TokenType) (l r : EvalFn) : EvalFn := fun msg =>
  let lv := l msg
  let rv := r msg
  match op with
  | .EQ => .bool (selEQ lv rv)
  | .NEQ => .bool !selEQ lv rv
  | .LT => .bool (selLT lv rv)
  | .LTE => .bool (selLTE lv rv)
  | .GT => .bool (selGT lv rv)
  | .GTE => .bool (selGTE lv rv)
  | _ => .null

/-- `Selector::matches`. -/
def selectorOf (evalFn : EvalFn) : TinyMqMessage.Selector := fun msg => evalFn msg = .bool true

end Closures

section Parser
variable (stod : Str → Except NumberError Double) (lexical : Option Str)

/-- The tokens that are left, the current one first, and behind them the `EOF_TOKEN`. -/
abbrev Parse := TopDown.Parser Token Thrown

def invalidSelector (message : Str) : Thrown :=
  .InvalidSelectorException (str "Invalid selector: ".toList ++ message)

def current : Parse Token := fun ts => .ok (ts.headD ⟨.EOF_TOKEN, []⟩, ts)

def check (type : TokenType) : Parse Bool := nextIs fun t => t.type = type

/-- The tokenizer may throw on the way to the next token. -/
def advance : Parse Unit := skip (lexical.map invalidSelector)

/-- `throw InvalidSelectorException(...)` with the text of the current token. -/
def refuse (message : Str → Str) : Parse α := do
  let tok ← current
  throw (invalidSelector (message tok.text))

def consume (type : TokenType) (what : Str) : Parse Token := do
  if ← check type then
    let tok ← current
    advance lexical
    return tok
  else refuse fun text => str "expected ".toList ++ what ++ str ", got '".toList ++ text ++ str ['\'']

/-- `if (check(type)) { advance(); return true; }`. -/
def accept (type : TokenType) : Parse Bool := do
  if ← check type then
    advance lexical
    return true
  else return false

def convert (value : Except NumberError β) : Parse β :=
  match value with
  | .ok v => return v
  | .error e => throw (.number e)

def isRelational : TokenType → Bool
  | .EQ | .NEQ | .LT | .LTE | .GT | .GTE => true
  | _ => false

def parsePrimary (parseOr : Parse EvalFn) : Parse EvalFn := do
  if ← check .LPAREN then
    advance lexical
    let expr ← parseOr
    let _ ← consume lexical .RPAREN (str [')'])
    return expr
  else if ← check .NULL_LIT then
    advance lexical
    return fun _ => .null
  else if ← check .TRUE_LIT then
    advance lexical
    return fun _ => .bool true
  else if ← check .FALSE_LIT then
    advance lexical
    return fun _ => .bool false
  else if ← check .STRING then
    let val ← current
    advance lexical
    return fun _ => .string val.text
  else if ← check .INT_LIT then
    let tok ← current
    let val ← convert (stoll tok.text)
    advance lexical
    return fun _ => .int64 val
  else if ← check .FLOAT_LIT then
    let tok ← current
    let val ← convert (stod tok.text)
    advance lexical
    return fun _ => .double val
  else if ← check .IDENT then
    let name ← current
    advance lexical
    return fun msg => extractProperty msg name.text
  else refuse fun text => str "unexpected token '".toList ++ text ++ str "' in expression".toList

/-- What may stand behind the first primary of a comparison, from an optional NOT on. -/
def parseOperator (parsePrimary : Parse EvalFn) (left : EvalFn) (negated : Bool) : Parse EvalFn := do
  if ← check .BETWEEN then
    advance lexical
    let low ← parsePrimary
    let _ ← consume lexical .AND (str "AND".toList)
    let high ← parsePrimary
    return between left low high negated
  else if ← check .IN then
    advance lexical
    let _ ← consume lexical .LPAREN (str ['('])
    let item ← parsePrimary
    let items ← whileNext (fun t => t.type = .COMMA) (fun items => do
      advance lexical
      let item ← parsePrimary
      return items ++ [item]) [item]
    let _ ← consume lexical .RPAREN (str [')'])
    return oneOf left items negated
  else if ← check .LIKE then
    advance lexical
    let patTok ← consume lexical .STRING (str "pattern string".toList)
    return like left (likeToRegex patTok.text) negated
  else if negated then
    throw (invalidSelector (str "NOT must be followed by BETWEEN, IN, or LIKE".toList))
  else if ← nextIs fun t => isRelational t.type then
    let op ← current
    advance lexical
    let right ← parsePrimary
    return relation op.type left right
  else return left

def parseComparison (parsePrimary : Parse EvalFn) : Parse EvalFn := do
  let left ← parsePrimary
  if ← check .IS then
    advance lexical
    let negated ← accept lexical .NOT
    let _ ← consume lexical .NULL_LIT (str "NULL".toList)
    return nullTest left negated
  else
    let negated ← accept lexical .NOT
    parseOperator lexical parsePrimary left negated

/-- A call for every NOT in a row. -/
def parseNot (parseComparison : Parse EvalFn) : Nat → Parse EvalFn
  | 0 => throw .exhausted
  | depth + 1 => do
    if ← check .NOT then
      advance lexical
      let expr ← parseNot parseComparison depth
      return negation expr
    else parseComparison

def parseAnd (parseNot : Parse EvalFn) : Parse EvalFn := do
  let left ← parseNot
  whileNext (fun t => t.type = .AND) (fun left => do
    advance lexical
    let right ← parseNot
    return conjunction left right) left

/-- The depth is that of parentheses in one another. -/
def parseOr : Nat → Parse EvalFn
  | 0 => throw .exhausted
  | depth + 1 => do
    let parseComparison := parseComparison lexical (parsePrimary stod lexical (parseOr depth))
    let parseAnd := parseAnd lexical (parseNot lexical parseComparison (depth + 1))
    let left ← parseAnd
    whileNext (fun t => t.type = .OR) (fun left => do
      advance lexical
      let right ← parseAnd
      return disjunction left right) left

/-- `lexical` is what the tokenizer complains of behind the last of the tokens, if it does
    not deliver the `EOF_TOKEN` there. -/
def parseExpression (ts : List Token) : Except Thrown EvalFn :=
  match parseOr stod lexical (ts.length + 1) ts with
  | .error e => .error e
  | .ok (expr, []) => .ok expr
  | .ok (_, t :: _) => .error
      (invalidSelector (str "unexpected token '".toList ++ t.text ++ str ['\'']))

end Parser

end TinyMqSelector
