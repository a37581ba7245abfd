import TinyMq.Broker.SelectorGrammar

/-!
The tokenizer of `Selector.cpp`. Characters are classed as the C locale classes them.
-/
namespace TinyMqSelectorTokens
open DelimitedText AssocLists TinyMqMessage TinyMqWireFormat TinyMqSelector TinyMqSelectorGrammar

section Tokenizer

def quote : UInt8 := byte '\''

def isspace (c : UInt8) : Bool := c = byte ' ' || 9 ≤ c && c ≤ 13

def isalpha (c : UInt8) : Bool :=
  byte 'A' ≤ c && c ≤ byte 'Z' || byte 'a' ≤ c && c ≤ byte 'z'

def toupper (c : UInt8) : UInt8 := if byte 'a' ≤ c && c ≤ byte 'z' then c - 32 else c

def skipWhitespace (input : Str) : Str := input.dropWhile isspace

/-- The text of a literal from behind its first quote, and what is behind the literal. -/
def readString : Str → Str × Str
  | [] => ([], [])
  | [ch] => if ch = quote then ([], []) else ([ch], [])
  | ch :: d :: input =>
    if ch = quote then
      if d = quote then
        let (result, rest) := readString input
        (quote :: result, rest)
      else ([], d :: input)
    else
      let (result, rest) := readString (d :: input)
      (ch :: result, rest)

/-- A number from behind its first digits on. -/
def readFraction (start : Str) : Str → Token × Str
  | [] => (⟨.INT_LIT, start⟩, [])
  | c :: input =>
    if c = byte '.' then
      (⟨.FLOAT_LIT, start ++ c :: input.takeWhile isDigit⟩, input.dropWhile isDigit)
    else (⟨.INT_LIT, start⟩, c :: input)

def readNumber (input : Str) : Token × Str :=
  let (sign, input) := if input.head? = some (byte '-') then ([byte '-'], input.tail) else ([], input)
  readFraction (sign ++ input.takeWhile isDigit) (input.dropWhile isDigit)

/-- What `readIdent` compares with, in its order. -/
def keywords : List (Str × TokenType) :=
  [(str "AND".toList, .AND), (str "OR".toList, .OR), (str "NOT".toList, .NOT),
    (str "LIKE".toList, .LIKE), (str "BETWEEN".toList, .BETWEEN), (str "IN".toList, .IN),
    (str "IS".toList, .IS), (str "TRUE".toList, .TRUE_LIT), (str "FALSE".toList, .FALSE_LIT),
    (str "NULL".toList, .NULL_LIT)]

def isIdent (c : UInt8) : Bool := isalpha c || isDigit c || c = byte '_' || c = byte '.'

def readIdent (input : Str) : Token × Str :=
  let text := input.takeWhile isIdent
  let upper := text.map toupper
  (⟨(get keywords upper).getD .IDENT, text⟩, input.dropWhile isIdent)

def eof : Token := ⟨.EOF_TOKEN, []⟩

/-- The next token and the rest of the input, or what the exception says. -/
def next (input : Str) : Except Str (Token × Str) :=
  match skipWhitespace input with
  | [] => .ok (eof, [])
  | c :: input =>
    if c = quote then
      let (result, rest) := readString input
      .ok (⟨.STRING, result⟩, rest)
    else if isDigit c || c = byte '-' && input.head?.any isDigit then .ok (readNumber (c :: input))
    else if isalpha c || c = byte '_' then .ok (readIdent (c :: input))
    else if c = byte '=' then .ok (word .EQ "=", input)
    else if c = byte '(' then .ok (word .LPAREN "(", input)
    else if c = byte ')' then .ok (word .RPAREN ")", input)
    else if c = byte ',' then .ok (word .COMMA ",", input)
    else if c = byte '<' then
      if input.head? = some (byte '>') then .ok (word .NEQ "<>", input.tail)
      else if input.head? = some (byte '=') then .ok (word .LTE "<=", input.tail)
      else .ok (word .LT "<", input)
    else if c = byte '>' then
      if input.head? = some (byte '=') then .ok (word .GTE ">=", input.tail)
      else .ok (word .GT ">", input)
    else .error (str "unexpected character '".toList ++ [c, quote])

def nexts : Nat → Str → Except Str (List Token)
  | 0, _ => .ok []
  | n + 1, input =>
    match next input with
    | .error message => .error message
    | .ok (t, rest) =>
      match nexts n rest with
      | .error message => .error message
      | .ok ts => .ok (t :: ts)

end Tokenizer

section Characters

theorem each_char {P : UInt8 → Prop} (all : ∀ n : Fin 256, P (UInt8.ofNat n)) (c : UInt8) : P c := by
  have whole := all ⟨c.toNat, c.toNat_lt⟩
  rwa [UInt8.ofNat_toNat] at whole

theorem digit_first : ∀ c, isDigit c = true → isspace c = false ∧ c ≠ quote :=
  each_char (by decide +kernel)

theorem alpha_first : ∀ c, isalpha c = true ∨ c = byte '_' →
    isspace c = false ∧ c ≠ quote ∧ isDigit c = false ∧ c ≠ byte '-' ∧ isIdent c = true :=
  each_char (by decide +kernel)

theorem upper_alpha : ∀ c, byte 'A' ≤ toupper c → toupper c ≤ byte 'Z' → isalpha c = true :=
  each_char (by decide +kernel)

end Characters

section Scanning

/-- Behind a token stands the end of the input, or the blank before the next one. -/
def Apart (rest : Str) : Prop := ∀ c ∈ rest.head?, c = byte ' '

theorem Apart.stops {rest : Str} (apart : Apart rest) {p : UInt8 → Bool} (blank : p (byte ' ') = false) :
    ∀ c ∈ rest.head?, p c = false := by
  intro c head
  rw [apart c head]
  exact blank

theorem skip_first {c : UInt8} (input : Str) (dark : isspace c = false) :
    skipWhitespace (c :: input) = c :: input := by
  simp [skipWhitespace, dark]

theorem next_blank (input : Str) : next (byte ' ' :: input) = next input := by
  have skipped : skipWhitespace (byte ' ' :: input) = skipWhitespace input := by
    simp [skipWhitespace, show isspace (byte ' ') = true by decide]
  unfold next
  rw [skipped]

theorem next_end : next [] = .ok (eof, []) := rfl

def doubled (text : Str) : Str := text.flatMap fun ch => if ch = quote then [quote, quote] else [ch]

theorem readString_closes (text : Str) {rest : Str} (behind : rest.head? ≠ some quote) :
    readString (doubled text ++ quote :: rest) = (text, rest) := by
  induction text with
  | nil =>
    cases rest with
    | nil => rfl
    | cons d rest =>
      have other : d ≠ quote := by simpa using behind
      simp [doubled, readString, other]
  | cons ch text ih =>
    by_cases quoted : ch = quote
    · have twice : doubled (ch :: text) = quote :: quote :: doubled text := by
        simp [doubled, quoted]
      rw [twice, List.cons_append, List.cons_append, readString, if_pos rfl, if_pos rfl, ih, quoted]
    · have once : doubled (ch :: text) = ch :: doubled text := by
        simp [doubled, quoted]
      obtain ⟨d, tail, more⟩ : ∃ d tail, doubled text ++ quote :: rest = d :: tail :=
        List.exists_cons_of_ne_nil (by simp)
      rw [once, List.cons_append, more, readString, if_neg quoted, ← more, ih]

def Sign (sign : Str) : Prop := sign = [] ∨ sign = [byte '-']

def Digits (digits : Str) : Prop := digits ≠ [] ∧ ∀ c ∈ digits, isDigit c = true

theorem next_number {sign digits : Str} (signed : Sign sign) (some_ : Digits digits) (rest : Str) :
    next (sign ++ digits ++ rest) = .ok (readNumber (sign ++ digits ++ rest)) := by
  obtain ⟨filled, digit⟩ := some_
  obtain ⟨d, ds, rfl⟩ := List.exists_cons_of_ne_nil filled
  have first : isDigit d = true := digit d List.mem_cons_self
  rcases signed with rfl | rfl
  · obtain ⟨dark, unquoted⟩ := digit_first d first
    rw [List.nil_append, List.cons_append]
    unfold next
    rw [skip_first _ dark]
    dsimp only
    rw [if_neg unquoted, if_pos (by simp [first])]
  · have dark : isspace (byte '-') = false := by decide
    have unquoted : byte '-' ≠ quote := by decide
    simp only [List.cons_append, List.nil_append]
    unfold next
    rw [skip_first _ dark]
    dsimp only
    rw [if_neg unquoted, if_pos (by simp [first])]

theorem readNumber_digits {sign digits rest : Str} (signed : Sign sign) (some_ : Digits digits)
    (stops : ∀ c ∈ rest.head?, isDigit c = false) :
    readNumber (sign ++ digits ++ rest) = readFraction (sign ++ digits) rest := by
  obtain ⟨filled, digit⟩ := some_
  have taken := takeWhile_upTo digit stops
  have left := dropWhile_upTo digit stops
  obtain ⟨d, ds, rfl⟩ := List.exists_cons_of_ne_nil filled
  have unsigned : d ≠ byte '-' := by
    rintro rfl
    exact absurd (digit _ List.mem_cons_self) (by decide)
  rcases signed with rfl | rfl
  · unfold readNumber
    simp only [List.nil_append, List.cons_append, List.head?_cons, Option.some.injEq, unsigned,
      if_false] at taken left ⊢
    rw [taken, left]
  · unfold readNumber
    simp only [List.nil_append, List.cons_append, List.head?_cons, List.tail_cons,
      if_true] at taken left ⊢
    rw [taken, left]

theorem next_ident {c : UInt8} {text rest : Str} (first : isalpha c = true ∨ c = byte '_')
    (more : ∀ d ∈ text, isIdent d = true) (apart : Apart rest) :
    next (c :: (text ++ rest)) =
      .ok (⟨(get keywords ((c :: text).map toupper)).getD .IDENT, c :: text⟩, rest) := by
  obtain ⟨dark, unquoted, word, unsigned, here⟩ := alpha_first c first
  have pass : ∀ d ∈ c :: text, isIdent d = true := by
    intro d member
    rcases List.mem_cons.mp member with rfl | later
    · exact here
    · exact more d later
  have stops : ∀ c ∈ rest.head?, isIdent c = false := apart.stops (by decide)
  have read : readIdent (c :: (text ++ rest)) =
      (⟨(get keywords ((c :: text).map toupper)).getD .IDENT, c :: text⟩, rest) := by
    unfold readIdent
    rw [← List.cons_append, takeWhile_upTo pass stops, dropWhile_upTo pass stops]
  have started : (isalpha c || decide (c = byte '_')) = true := by simpa using first
  unfold next
  rw [skip_first _ dark]
  dsimp only
  rw [if_neg unquoted, if_neg (by simp [word, unsigned]), if_pos started, read]

end Scanning

section RoundTrip

def symbols : List Token :=
  [word .EQ "=", word .NEQ "<>", word .LT "<", word .LTE "<=", word .GT ">", word .GTE ">=",
    word .LPAREN "(", word .RPAREN ")", word .COMMA ","]

inductive WellFormed : Token → Prop where
  | ident {c : UInt8} {text : Str} : isalpha c = true ∨ c = byte '_' →
      (∀ d ∈ text, isIdent d = true) → (c :: text).map toupper ∉ keywords.map Prod.fst →
      WellFormed ⟨.IDENT, c :: text⟩
  | keyword {upper text : Str} {type : TokenType} :
      (upper, type) ∈ keywords → text.map toupper = upper → WellFormed ⟨type, text⟩
  | string (text : Str) : WellFormed ⟨.STRING, text⟩
  | int {sign digits : Str} : Sign sign → Digits digits → WellFormed ⟨.INT_LIT, sign ++ digits⟩
  | float {sign whole fraction : Str} :
      Sign sign → Digits whole → (∀ c ∈ fraction, isDigit c = true) →
      WellFormed ⟨.FLOAT_LIT, sign ++ whole ++ byte '.' :: fraction⟩
  | symbol {t : Token} : t ∈ symbols → WellFormed t

def render (t : Token) : Str :=
  if t.type = .STRING then quote :: (doubled t.text ++ [quote]) else t.text

/-- The tokens, separated by one blank. -/
def rendering (ts : List Token) : Str := [byte ' '].intercalate (ts.map render)

theorem keyword_upper {upper : Str} {type : TokenType} (member : (upper, type) ∈ keywords) :
    upper ≠ [] ∧ type ≠ .STRING ∧ (∀ c ∈ upper, byte 'A' ≤ c ∧ c ≤ byte 'Z') ∧
      get keywords upper = some type := by
  have all : ∀ k ∈ keywords, k.1 ≠ [] ∧ k.2 ≠ .STRING ∧ (∀ c ∈ k.1, byte 'A' ≤ c ∧ c ≤ byte 'Z') ∧
      get keywords k.1 = some k.2 := by decide +kernel
  exact all _ member

theorem next_symbol {t : Token} (member : t ∈ symbols) {rest : Str} (apart : Apart rest) :
    next (t.text ++ rest) = .ok (t, rest) := by
  have alone : ∀ c, c ≠ byte ' ' → rest.head? ≠ some c := by
    intro c other head
    exact other (apart c head)
  have gt := alone (byte '>') (by decide)
  have eq := alone (byte '=') (by decide)
  simp only [symbols, List.mem_cons, List.not_mem_nil, or_false] at member
  rcases member with rfl | rfl | rfl | rfl | rfl | rfl | rfl | rfl | rfl
  · rfl
  · rfl
  · change next (byte '<' :: rest) = _
    unfold next
    rw [skip_first _ (by decide)]
    dsimp only
    iterate 7 rw [if_neg (by simp [quote, byte, isDigit, isalpha])]
    rw [if_pos rfl, if_neg gt, if_neg eq]
  · rfl
  · change next (byte '>' :: rest) = _
    unfold next
    rw [skip_first _ (by decide)]
    dsimp only
    iterate 8 rw [if_neg (by simp [quote, byte, isDigit, isalpha])]
    rw [if_pos rfl, if_neg eq]
  · rfl
  · rfl
  · rfl
  · rfl

theorem next_render {t : Token} (good : WellFormed t) {rest : Str} (apart : Apart rest) :
    next (render t ++ rest) = .ok (t, rest) := by
  cases good with
  | @ident c text first more free =>
    have none_ : get keywords ((c :: text).map toupper) = none := by
      cases found : get keywords ((c :: text).map toupper) with
      | none => rfl
      | some type => exact absurd (List.mem_map_of_mem (get_mem found)) free
    have rendered : render ⟨.IDENT, c :: text⟩ = c :: text := rfl
    rw [rendered, List.cons_append, next_ident first more apart, none_]
    rfl
  | @keyword upper text type member same =>
    obtain ⟨some_, other, letters, found⟩ := keyword_upper member
    subst same
    have rendered : render ⟨type, text⟩ = text := if_neg other
    have alpha : ∀ c ∈ text, isalpha c = true := by
      intro c inside
      obtain ⟨low, high⟩ := letters (toupper c) (List.mem_map_of_mem inside)
      exact upper_alpha c low high
    obtain ⟨c, text, rfl⟩ := List.exists_cons_of_ne_nil (List.map_eq_nil_iff.not.mp some_)
    have more : ∀ d ∈ text, isIdent d = true := by
      intro d inside
      unfold isIdent
      rw [alpha d (List.mem_cons_of_mem c inside)]
      rfl
    rw [rendered, List.cons_append, next_ident (.inl (alpha c List.mem_cons_self)) more apart, found]
    rfl
  | string text =>
    have rendered : render ⟨.STRING, text⟩ ++ rest = quote :: (doubled text ++ quote :: rest) := by
      simp [render]
    have behind : rest.head? ≠ some quote := by
      intro head
      exact absurd (apart quote head) (by decide)
    have dark : isspace quote = false := by decide
    rw [rendered]
    unfold next
    rw [skip_first _ dark]
    simp only [if_true]
    rw [readString_closes text behind]
  | @int sign digits signed some_ =>
    have rendered : render ⟨.INT_LIT, sign ++ digits⟩ = sign ++ digits := rfl
    rw [rendered, next_number signed some_,
      readNumber_digits signed some_ (apart.stops (by decide))]
    cases rest with
    | nil => rfl
    | cons c rest =>
      have blank : c = byte ' ' := apart c rfl
      rw [readFraction, if_neg (by rw [blank]; decide)]
  | @float sign whole fraction signed some_ digit =>
    have rendered : render ⟨.FLOAT_LIT, sign ++ whole ++ byte '.' :: fraction⟩ ++ rest =
        sign ++ whole ++ byte '.' :: (fraction ++ rest) := by
      simp [render]
    have stops : ∀ c ∈ rest.head?, isDigit c = false := apart.stops (by decide)
    have dot : ∀ c ∈ (byte '.' :: (fraction ++ rest)).head?, isDigit c = false := by
      intro c head
      rw [← Option.some.inj head]
      decide
    rw [rendered, next_number signed some_, readNumber_digits signed some_ dot, readFraction,
      if_pos rfl, takeWhile_upTo digit stops, dropWhile_upTo digit stops]
  | symbol member =>
    have plain : t.type ≠ .STRING := by
      have all : ∀ u ∈ symbols, u.type ≠ .STRING := by decide
      exact all t member
    have rendered : render t = t.text := if_neg plain
    rw [rendered]
    exact next_symbol member apart

theorem nexts_same {input input' : Str} (same : next input = next input') (n : Nat) :
    nexts n input = nexts n input' := by
  cases n with
  | zero => rfl
  | succ n => rw [nexts, nexts, same]

theorem nexts_end (n : Nat) : nexts n [] = .ok (List.replicate n eof) := by
  induction n with
  | zero => rfl
  | succ n ih =>
    rw [nexts, next_end]
    dsimp only
    rw [ih]
    rfl

theorem rendering_cons (t : Token) (ts : List Token) : ∃ rest,
    rendering (t :: ts) = render t ++ rest ∧ Apart rest ∧ next rest = next (rendering ts) := by
  cases ts with
  | nil =>
    refine ⟨[], by simp [rendering], ?_, rfl⟩
    intro c head
    cases head
  | cons u ts =>
    refine ⟨byte ' ' :: rendering (u :: ts), by simp [rendering], ?_, next_blank _⟩
    intro c head
    exact (Option.some.inj head).symm

/-- The tokenizer returns the tokens that were rendered, and the end of the input forever. -/
theorem rendered_tokens (ts : List Token) (good : ∀ t ∈ ts, WellFormed t) (n : Nat) :
    nexts (ts.length + n) (rendering ts) = .ok (ts ++ List.replicate n eof) := by
  induction ts with
  | nil =>
    rw [List.length_nil, Nat.zero_add]
    exact nexts_end n
  | cons t ts ih =>
    obtain ⟨rest, layout, apart, same⟩ := rendering_cons t ts
    have later := ih fun u member => good u (List.mem_cons_of_mem t member)
    have count : (t :: ts).length + n = ts.length + n + 1 := by
      rw [List.length_cons]
      omega
    rw [count, layout, nexts, next_render (good t List.mem_cons_self) apart]
    dsimp only
    rw [nexts_same same, later]
    rfl

def tricky : List Token :=
  [⟨.IDENT, str "a.b".toList⟩, ⟨.STRING, [quote]⟩, ⟨.FLOAT_LIT, str "-1.5".toList⟩]

theorem tricky_tokens : nexts 4 (rendering tricky) = .ok (tricky ++ [eof]) := by
  apply rendered_tokens tricky _ 1
  have name : WellFormed ⟨.IDENT, str "a.b".toList⟩ :=
    @WellFormed.ident (byte 'a') (str ".b".toList) (by decide +kernel) (by decide +kernel)
      (by decide +kernel)
  have number : WellFormed ⟨.FLOAT_LIT, str "-1.5".toList⟩ :=
    @WellFormed.float [byte '-'] [byte '1'] [byte '5'] (.inr rfl)
      ⟨by decide +kernel, by decide +kernel⟩ (by decide +kernel)
  intro t member
  simp only [tricky, List.mem_cons, List.not_mem_nil, or_false] at member
  rcases member with rfl | rfl | rfl
  · exact name
  · exact .string [quote]
  · exact number

end RoundTrip

section Progress

theorem readString_length (input : Str) : (readString input).2.length ≤ input.length := by
  fun_induction readString input with
  | case1 => exact Nat.le_refl 0
  | case2 => exact Nat.zero_le _
  | case3 => exact Nat.zero_le _
  | case4 input result rest read ih =>
    rw [read] at ih
    exact ih.trans (Nat.le_add_right _ 2)
  | case5 => exact Nat.le_succ _
  | case6 ch d input unquoted result rest read ih =>
    rw [read] at ih
    exact ih.trans (Nat.le_succ _)

theorem readFraction_length (start input : Str) :
    (readFraction start input).2.length ≤ input.length := by
  cases input with
  | nil => exact Nat.le_refl 0
  | cons c input =>
    rw [readFraction]
    split
    · exact (List.dropWhile_sublist _).length_le.trans (Nat.le_succ _)
    · exact Nat.le_refl _

theorem readNumber_length {c : UInt8} (input : Str) (number : isDigit c = true ∨ c = byte '-') :
    (readNumber (c :: input)).2.length ≤ input.length := by
  unfold readNumber
  by_cases signed : c = byte '-'
  · simp only [List.head?_cons, signed, if_true, List.tail_cons]
    exact (readFraction_length ..).trans (List.dropWhile_sublist _).length_le
  · have digit : isDigit c = true := number.resolve_right signed
    simp only [List.head?_cons, Option.some.injEq, signed, if_false]
    rw [List.dropWhile_cons, if_pos digit]
    exact (readFraction_length ..).trans (List.dropWhile_sublist _).length_le

theorem next_shorter {input rest : Str} {t : Token} (read : next input = .ok (t, rest))
    (more : t.type ≠ .EOF_TOKEN) : rest.length < input.length := by
  have skipped : (skipWhitespace input).length ≤ input.length :=
    (List.dropWhile_sublist _).length_le
  unfold next at read
  split at read
  · cases read
    exact absurd rfl more
  · rename_i c behind first
    rw [first, List.length_cons] at skipped
    suffices rest.length ≤ behind.length by omega
    have same : ∀ u : Token, (.ok (u, behind) : Except Str (Token × Str)) = .ok (t, rest) →
        rest.length ≤ behind.length := by
      intro u done
      cases done
      exact Nat.le_refl _
    have tail : ∀ u : Token, (.ok (u, behind.tail) : Except Str (Token × Str)) = .ok (t, rest) →
        rest.length ≤ behind.length := by
      intro u done
      cases done
      rw [List.length_tail]
      exact Nat.sub_le ..
    by_cases quoted : c = quote
    · rw [if_pos quoted] at read
      cases read
      exact readString_length behind
    rw [if_neg quoted] at read
    by_cases number : (isDigit c || c = byte '-' && behind.head?.any isDigit) = true
    · rw [if_pos number] at read
      obtain rfl := congrArg Prod.snd (Except.ok.inj read)
      apply readNumber_length
      simp only [Bool.or_eq_true, Bool.and_eq_true, decide_eq_true_eq] at number
      exact number.imp_right And.left
    rw [if_neg number] at read
    by_cases letter : (isalpha c || c = byte '_') = true
    · rw [if_pos letter] at read
      obtain rfl := congrArg Prod.snd (Except.ok.inj read)
      obtain ⟨_, _, _, _, here⟩ := alpha_first c (by simpa using letter)
      unfold readIdent
      rw [List.dropWhile_cons, if_pos here]
      exact (List.dropWhile_sublist _).length_le
    rw [if_neg letter] at read
    by_cases symbol : c = byte '=' ∨ c = byte '(' ∨ c = byte ')' ∨ c = byte ','
    · rcases symbol with rfl | rfl | rfl | rfl <;> exact same _ read
    obtain ⟨eq, opens, closes, comma⟩ : c ≠ byte '=' ∧ c ≠ byte '(' ∧ c ≠ byte ')' ∧ c ≠ byte ',' := by
      simpa using symbol
    rw [if_neg eq, if_neg opens, if_neg closes, if_neg comma] at read
    by_cases less : c = byte '<'
    · rw [if_pos less] at read
      by_cases unequal : behind.head? = some (byte '>')
      · exact tail _ ((if_pos unequal).symm.trans read)
      · rw [if_neg unequal] at read
        by_cases equal : behind.head? = some (byte '=')
        · exact tail _ ((if_pos equal).symm.trans read)
        · exact same _ ((if_neg equal).symm.trans read)
    rw [if_neg less] at read
    by_cases greater : c = byte '>'
    · rw [if_pos greater] at read
      by_cases equal : behind.head? = some (byte '=')
      · exact tail _ ((if_pos equal).symm.trans read)
      · exact same _ ((if_neg equal).symm.trans read)
    · rw [if_neg greater] at read
      cases read

/-- The tokens up to the end of the input, or up to where the tokenizer throws with what it says. -/
def tokenize (input : Str) : List Token × Option Str :=
  match _ : next input with
  | .error message => ([], some message)
  | .ok (t, rest) =>
    if _ : t.type = .EOF_TOKEN then ([], none)
    else
      let (ts, lexical) := tokenize rest
      (t :: ts, lexical)
termination_by input.length
decreasing_by exact next_shorter ‹_› ‹_›

theorem tokenize_throws {input message : Str} (thrown : next input = .error message) :
    tokenize input = ([], some message) := by
  unfold tokenize
  split
  · rename_i here
    rw [thrown] at here
    cases here
    rfl
  · rename_i here
    rw [thrown] at here
    cases here

theorem tokenize_ends {input rest : Str} {t : Token} (read : next input = .ok (t, rest))
    (last : t.type = .EOF_TOKEN) : tokenize input = ([], none) := by
  unfold tokenize
  split
  · rename_i here
    rw [read] at here
    cases here
  · rename_i here
    rw [read] at here
    cases here
    rw [dif_pos last]

theorem tokenize_goes {input rest : Str} {t : Token} (read : next input = .ok (t, rest))
    (more : t.type ≠ .EOF_TOKEN) :
    tokenize input = (t :: (tokenize rest).1, (tokenize rest).2) := by
  conv_lhs => unfold tokenize
  split
  · rename_i here
    rw [read] at here
    cases here
  · rename_i here
    rw [read] at here
    cases here
    rw [dif_neg more]

theorem tokenize_same {input input' : Str} (same : next input = next input') :
    tokenize input = tokenize input' := by
  cases read : next input with
  | error message => rw [tokenize_throws read, tokenize_throws (same.symm.trans read)]
  | ok r =>
    obtain ⟨t, rest⟩ := r
    by_cases last : t.type = .EOF_TOKEN
    · rw [tokenize_ends read last, tokenize_ends (same.symm.trans read) last]
    · rw [tokenize_goes read last, tokenize_goes (same.symm.trans read) last]

theorem WellFormed.more {t : Token} (good : WellFormed t) : t.type ≠ .EOF_TOKEN := by
  cases good with
  | keyword member =>
    have all : ∀ k ∈ keywords, k.2 ≠ .EOF_TOKEN := by decide
    exact all _ member
  | symbol member =>
    have all : ∀ u ∈ symbols, u.type ≠ .EOF_TOKEN := by decide
    exact all t member
  | _ => simp

theorem tokenize_rendering (ts : List Token) (good : ∀ t ∈ ts, WellFormed t) :
    tokenize (rendering ts) = (ts, none) := by
  induction ts with
  | nil => exact tokenize_ends next_end rfl
  | cons t ts ih =>
    obtain ⟨rest, layout, apart, same⟩ := rendering_cons t ts
    have first : WellFormed t := good t List.mem_cons_self
    rw [layout, tokenize_goes (next_render first apart) first.more, tokenize_same same,
      ih fun u member => good u (List.mem_cons_of_mem t member)]

/-- The input ends in a literal that no quote closes. -/
inductive LeftOpen : Str → Prop where
  | here {input text : Str} : skipWhitespace input = quote :: doubled text → LeftOpen input
  | later {input rest : Str} {t : Token} : next input = .ok (t, rest) → LeftOpen rest →
      LeftOpen input

end Progress

end TinyMqSelectorTokens
