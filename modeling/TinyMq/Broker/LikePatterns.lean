import TinyMq.Broker.SelectorErrors

/-!
`LIKE` as a wildcard match, and the regular expression that the pattern is translated to.
-/
namespace TinyMqLikePatterns
open Doubles AssocLists TinyMqMessage TinyMqWireFormat TinyMqSelector TinyMqSelectorGrammar
  TinyMqSelectorReading TinyMqSelectorParsing TinyMqSelectorTokens TinyMqSelectorErrors

section Meaning

/-- A pattern and a value that matches it: `%` stands for any sequence, `_` for any character,
    and every other character for itself. -/
inductive Wildcard : Str → Str → Prop where
  | nil : Wildcard [] []
  | percent {pattern rest : Str} (sequence : Str) :
      Wildcard pattern rest → Wildcard (byte '%' :: pattern) (sequence ++ rest)
  | underscore {pattern rest : Str} (c : UInt8) :
      Wildcard pattern rest → Wildcard (byte '_' :: pattern) (c :: rest)
  | char {pattern rest : Str} {c : UInt8} : c ≠ byte '%' → c ≠ byte '_' →
      Wildcard pattern rest → Wildcard (c :: pattern) (c :: rest)

def lineTerminators (s : Str) : Nat := s.countP isLineTerminator

theorem lineTerminators_cons (c : UInt8) (s : Str) :
    lineTerminators (c :: s) = lineTerminators s + if isLineTerminator c = true then 1 else 0 :=
  List.countP_cons ..

theorem lineTerminators_append (s t : Str) :
    lineTerminators (s ++ t) = lineTerminators s + lineTerminators t := List.countP_append

theorem wildcard_lineTerminators {pattern value : Str} (matched : Wildcard pattern value) :
    lineTerminators pattern ≤ lineTerminators value := by
  induction matched with
  | nil => exact Nat.le_refl _
  | percent sequence _ ih =>
    have plain : isLineTerminator (byte '%') ≠ true := by decide
    rw [lineTerminators_cons, if_neg plain, lineTerminators_append]
    omega
  | underscore c _ ih =>
    have plain : isLineTerminator (byte '_') ≠ true := by decide
    rw [lineTerminators_cons, if_neg plain, lineTerminators_cons]
    omega
  | char _ _ _ ih =>
    rw [lineTerminators_cons, lineTerminators_cons]
    omega

theorem wildcard_percent_iff {pattern value : Str} : Wildcard (byte '%' :: pattern) value ↔
    ∃ sequence rest, value = sequence ++ rest ∧ Wildcard pattern rest := by
  constructor
  · intro matched
    cases matched with
    | percent sequence matched => exact ⟨sequence, _, rfl, matched⟩
    | char percent => exact absurd rfl percent
  · rintro ⟨sequence, rest, rfl, matched⟩
    exact .percent sequence matched

theorem wildcard_underscore_iff {pattern value : Str} : Wildcard (byte '_' :: pattern) value ↔
    ∃ c rest, value = c :: rest ∧ Wildcard pattern rest := by
  constructor
  · intro matched
    cases matched with
    | underscore c matched => exact ⟨c, _, rfl, matched⟩
    | char _ underscore => exact absurd rfl underscore
  · rintro ⟨c, rest, rfl, matched⟩
    exact .underscore c matched

theorem wildcard_char_iff {pattern value : Str} {ch : UInt8} (percent : ch ≠ byte '%')
    (underscore : ch ≠ byte '_') : Wildcard (ch :: pattern) value ↔
      ∃ rest, value = ch :: rest ∧ Wildcard pattern rest := by
  constructor
  · intro matched
    cases matched with
    | percent => exact absurd rfl percent
    | underscore => exact absurd rfl underscore
    | char _ _ matched => exact ⟨_, rfl, matched⟩
  · rintro ⟨rest, rfl, matched⟩
    exact .char percent underscore matched

end Meaning

section Expressions

/-- The syntax characters of the ECMAScript grammar. -/
def syntaxCharacters : Str := str "^$\\.*+?()[]{}|".toList

/-- The expressions without groups, classes, choices, assertions and counts, and what they are
    made of. A syntax character stands in one only behind a backslash, or as a dot, or as the
    star behind a dot. -/
inductive Denotes : Str → List Atom → Prop where
  | nil : Denotes [] []
  | char {c : UInt8} {re : Str} {as : List Atom} : c ∉ syntaxCharacters → Denotes re as →
      Denotes (c :: re) (.char c :: as)
  | escaped {c : UInt8} {re : Str} {as : List Atom} : c ∈ syntaxCharacters → Denotes re as →
      Denotes (byte '\\' :: c :: re) (.char c :: as)
  | any {re : Str} {as : List Atom} : Denotes re as → Denotes (byte '.' :: re) (.any :: as)
  | many {re : Str} {as : List Atom} : Denotes re as →
      Denotes (byte '.' :: byte '*' :: re) (.many :: as)

/-- What the loop of `likeToRegex` appends for a character. -/
def piece (ch : UInt8) : Str :=
  if ch = byte '%' then str ['.', '*']
  else if ch = byte '_' then [byte '.']
  else if ch ∈ special then [byte '\\', ch]
  else [ch]

def atomOf (ch : UInt8) : Atom :=
  if ch = byte '%' then .many else if ch = byte '_' then .any else .char ch

theorem likeToRegex_between (pattern : Str) :
    (likeToRegex pattern).tail.dropLast = pattern.flatMap piece := by
  have layout : likeToRegex pattern = byte '^' :: (pattern.flatMap piece ++ [byte '$']) := rfl
  rw [layout, List.tail_cons, List.dropLast_concat]

theorem pattern_denotes (pattern : Str) : Denotes (pattern.flatMap piece) (pattern.map atomOf) := by
  have complete : ∀ c ∈ syntaxCharacters, c ∈ special := by decide +kernel
  have syntactic : ∀ c ∈ special, c ∈ syntaxCharacters := by decide +kernel
  induction pattern with
  | nil => exact .nil
  | cons ch pattern ih =>
    rw [List.flatMap_cons, List.map_cons]
    unfold piece atomOf
    by_cases percent : ch = byte '%'
    · rw [if_pos percent, if_pos percent]
      exact .many ih
    rw [if_neg percent, if_neg percent]
    by_cases underscore : ch = byte '_'
    · rw [if_pos underscore, if_pos underscore]
      exact .any ih
    rw [if_neg underscore, if_neg underscore]
    by_cases meaning : ch ∈ special
    · rw [if_pos meaning]
      exact .escaped (syntactic ch meaning) ih
    · rw [if_neg meaning]
      exact .char (fun inside => meaning (complete ch inside)) ih

theorem star_no_start {re : Str} {as : List Atom} (d : Denotes re as) : re.head? ≠ some (byte '*') := by
  have star : byte '*' ∈ syntaxCharacters := by decide
  cases d with
  | nil => simp
  | char plain _ =>
    intro head
    rw [Option.some.inj head] at plain
    exact plain star
  | escaped => exact fun head => absurd (Option.some.inj head) (by decide)
  | any => exact fun head => absurd (Option.some.inj head) (by decide)
  | many => exact fun head => absurd (Option.some.inj head) (by decide)

theorem denotes_atoms {re : Str} {as : List Atom} (d : Denotes re as) : atoms re = as := by
  have dot : byte '.' ∈ syntaxCharacters := by decide
  have backslash : byte '\\' ∈ syntaxCharacters := by decide
  induction d with
  | nil => rfl
  | @char c re as plain d ih =>
    have undotted : c ≠ byte '.' := by
      rintro rfl
      exact plain dot
    have unescaped : c ≠ byte '\\' := by
      rintro rfl
      exact plain backslash
    cases re with
    | nil =>
      rw [← ih]
      exact if_neg undotted
    | cons e re => rw [← ih, atoms, if_neg undotted, if_neg unescaped]
  | @escaped c re as _ _ ih => rw [← ih, atoms, if_neg (by decide), if_pos rfl]
  | @any re as d ih =>
    have unstarred := star_no_start d
    cases re with
    | nil =>
      rw [← ih]
      rfl
    | cons e re =>
      have other : e ≠ byte '*' := by simpa using unstarred
      rw [← ih, atoms, if_pos rfl, if_neg other]
  | @many re as _ ih => rw [← ih, atoms, if_pos rfl, if_pos rfl]

end Expressions

section Matching

theorem matchMany_iff (rest : Str → Bool) (value : Str) : matchMany rest value = true ↔
    ∃ sequence tail, value = sequence ++ tail ∧ lineTerminators sequence = 0 ∧ rest tail = true := by
  induction value with
  | nil =>
    constructor
    · intro found
      exact ⟨[], [], rfl, rfl, found⟩
    · rintro ⟨sequence, tail, cut, _, found⟩
      obtain ⟨-, rfl⟩ := List.append_eq_nil_iff.mp cut.symm
      exact found
  | cons c value ih =>
    rw [matchMany, Bool.or_eq_true, Bool.and_eq_true, Bool.not_eq_true', ih]
    constructor
    · rintro (found | ⟨plain, sequence, tail, rfl, none_, found⟩)
      · exact ⟨[], c :: value, rfl, rfl, found⟩
      · refine ⟨c :: sequence, tail, rfl, ?_, found⟩
        rw [lineTerminators_cons, none_, plain]
        rfl
    · rintro ⟨sequence, tail, cut, none_, found⟩
      cases sequence with
      | nil =>
        rw [List.nil_append] at cut
        exact .inl (cut ▸ found)
      | cons d sequence =>
        obtain ⟨rfl, rfl⟩ := List.cons.inj cut
        rw [lineTerminators_cons] at none_
        refine .inr ⟨?_, sequence, tail, rfl, by omega, found⟩
        apply Bool.eq_false_iff.mpr
        intro terminator
        rw [if_pos terminator] at none_
        omega

theorem matchAtoms_any {as : List Atom} {value : Str} : matchAtoms (.any :: as) value = true ↔
    ∃ c rest, value = c :: rest ∧ isLineTerminator c = false ∧ matchAtoms as rest = true := by
  cases value with
  | nil => simp [matchAtoms]
  | cons c value => simp [matchAtoms]

theorem matchAtoms_char {as : List Atom} {ch : UInt8} {value : Str} :
    matchAtoms (.char ch :: as) value = true ↔
      ∃ rest, value = ch :: rest ∧ matchAtoms as rest = true := by
  cases value with
  | nil => simp [matchAtoms]
  | cons c value => simp [matchAtoms]

/-- The expression matches where the pattern does, as long as no wildcard takes a line terminator. -/
theorem matchAtoms_iff (pattern value : Str) : matchAtoms (pattern.map atomOf) value = true ↔
    Wildcard pattern value ∧ lineTerminators value = lineTerminators pattern := by
  induction pattern generalizing value with
  | nil =>
    rw [List.map_nil, matchAtoms, List.isEmpty_iff]
    constructor
    · rintro rfl
      exact ⟨.nil, rfl⟩
    · rintro ⟨matched, _⟩
      cases matched
      rfl
  | cons ch pattern ih =>
    rw [List.map_cons]
    by_cases percent : ch = byte '%'
    · subst percent
      have atom : atomOf (byte '%') = .many := rfl
      have plain : isLineTerminator (byte '%') ≠ true := by decide
      rw [atom, matchAtoms, matchMany_iff, wildcard_percent_iff, lineTerminators_cons, if_neg plain]
      constructor
      · rintro ⟨sequence, rest, rfl, none_, found⟩
        obtain ⟨matched, count⟩ := (ih rest).mp found
        refine ⟨⟨sequence, rest, rfl, matched⟩, ?_⟩
        rw [lineTerminators_append]
        omega
      · rintro ⟨⟨sequence, rest, rfl, matched⟩, count⟩
        have least := wildcard_lineTerminators matched
        rw [lineTerminators_append] at count
        exact ⟨sequence, rest, rfl, by omega, (ih rest).mpr ⟨matched, by omega⟩⟩
    by_cases underscore : ch = byte '_'
    · subst underscore
      have atom : atomOf (byte '_') = .any := rfl
      have plain : isLineTerminator (byte '_') ≠ true := by decide
      rw [atom, matchAtoms_any, wildcard_underscore_iff, lineTerminators_cons, if_neg plain]
      constructor
      · rintro ⟨c, rest, rfl, other, found⟩
        obtain ⟨matched, count⟩ := (ih rest).mp found
        refine ⟨⟨c, rest, rfl, matched⟩, ?_⟩
        rw [lineTerminators_cons, other, count]
        rfl
      · rintro ⟨⟨c, rest, rfl, matched⟩, count⟩
        have least := wildcard_lineTerminators matched
        rw [lineTerminators_cons] at count
        have other : isLineTerminator c = false := by
          apply Bool.eq_false_iff.mpr
          intro terminator
          rw [if_pos terminator] at count
          omega
        rw [other] at count
        exact ⟨c, rest, rfl, other, (ih rest).mpr ⟨matched, count⟩⟩
    · have atom : atomOf ch = .char ch := by
        rw [atomOf, if_neg percent, if_neg underscore]
      rw [atom, matchAtoms_char, wildcard_char_iff percent underscore]
      constructor
      · rintro ⟨rest, rfl, found⟩
        obtain ⟨matched, count⟩ := (ih rest).mp found
        refine ⟨⟨rest, rfl, matched⟩, ?_⟩
        rw [lineTerminators_cons, lineTerminators_cons, count]
      · rintro ⟨⟨rest, rfl, matched⟩, count⟩
        rw [lineTerminators_cons, lineTerminators_cons] at count
        exact ⟨rest, rfl, (ih rest).mpr ⟨matched, by omega⟩⟩

theorem regexMatch_iff (pattern value : Str) : regexMatch value (likeToRegex pattern) = true ↔
    Wildcard pattern value ∧ lineTerminators value = lineTerminators pattern := by
  unfold regexMatch
  rw [likeToRegex_between, denotes_atoms (pattern_denotes pattern)]
  exact matchAtoms_iff pattern value

end Matching

section Selectors
variable (stod : Str → Except NumberError Double)

def likeTokens (name pattern : Str) : List Token :=
  [⟨.IDENT, name⟩, word .LIKE "LIKE", ⟨.STRING, pattern⟩]

theorem parse_like {name : Str} (ident : WellFormed ⟨.IDENT, name⟩) (pattern : Str) :
    parse stod (rendering (likeTokens name pattern)) =
      .ok (like (fun msg => extractProperty msg name) (likeToRegex pattern) false) := by
  have operator : WellFormed (word .LIKE "LIKE") :=
    @WellFormed.keyword (str "LIKE".toList) _ _ (by decide) (by decide +kernel)
  have good : ∀ t ∈ likeTokens name pattern, WellFormed t := by
    intro t member
    simp only [likeTokens, List.mem_cons, List.not_mem_nil, or_false] at member
    rcases member with rfl | rfl | rfl
    · exact ident
    · exact operator
    · exact .string pattern
  have tokens := tokenize_rendering _ good
  have filled : rendering (likeTokens name pattern) ≠ [] := by
    intro empty
    rw [empty, tokenize_ends next_end rfl] at tokens
    cases tokens
  have d : Derives .or_expr (likeTokens name pattern) (.like (.ident name) pattern false) :=
    loosen_to 0 (k := 3) (@Derives.like [⟨.IDENT, name⟩] [] _ _ _ ⟨.STRING, pattern⟩ (.ident rfl)
      .absent rfl rfl)
  have quiet : ∀ t ∈ likeTokens name pattern, raises stod t = none := by
    intro t member
    simp only [likeTokens, List.mem_cons, List.not_mem_nil, or_false] at member
    rcases member with rfl | rfl | rfl <;> rfl
  unfold parse
  have parsed := parse_complete d quiet
  rw [Expr.eval, Expr.eval] at parsed
  rw [if_neg filled, tokens]
  exact parsed

theorem like_string {msg : Properties} {name value : Str} (pattern : Str)
    (text : get msg name = some (.value (.string value))) :
    like (fun msg => extractProperty msg name) (likeToRegex pattern) false msg =
      .bool (regexMatch value (likeToRegex pattern)) := by
  have read : extractProperty msg name = .string value := by
    rw [extractProperty, text]
  unfold like
  dsimp only
  rw [read]
  rfl

/-- `LIKE` is a wildcard match exactly where the value does not match, or where the value and the
    pattern hold as many line terminators. -/
theorem like_wildcard_iff {name pattern value : Str} {msg : Properties}
    (ident : WellFormed ⟨.IDENT, name⟩) (text : get msg name = some (.value (.string value))) :
    (∃ f, parse stod (rendering (likeTokens name pattern)) = .ok f ∧
      (f msg = .bool true ↔ Wildcard pattern value)) ↔
    (Wildcard pattern value → lineTerminators value = lineTerminators pattern) := by
  rw [parse_like stod ident pattern]
  have answers : like (fun msg => extractProperty msg name) (likeToRegex pattern) false msg = .bool true ↔
      Wildcard pattern value ∧ lineTerminators value = lineTerminators pattern := by
    rw [like_string pattern text, SelectorValue.bool.injEq]
    exact regexMatch_iff pattern value
  constructor
  · rintro ⟨f, parsed, exact_⟩ matched
    cases parsed
    exact (answers.mp (exact_.mpr matched)).2
  · intro same
    refine ⟨_, rfl, answers.trans ?_⟩
    constructor
    · exact And.left
    · intro matched
      exact ⟨matched, same matched⟩

def named (value : Str) : Properties := [(str ['p'], .value (.string value))]

theorem named_ident : WellFormed ⟨.IDENT, str ['p']⟩ :=
  @WellFormed.ident (byte 'p') [] (by decide) (by simp) (by decide +kernel)

theorem like_wildcard_plain : ∃ f,
    parse readDouble (rendering (likeTokens (str ['p']) (str ['a', '%', 'b']))) = .ok f ∧
      (f (named (str ['a', 'c', 'b'])) = .bool true ↔
        Wildcard (str ['a', '%', 'b']) (str ['a', 'c', 'b'])) :=
  (like_wildcard_iff readDouble named_ident rfl).mpr fun _ => rfl

theorem like_misses_line : ¬ ∃ f,
    parse readDouble (rendering (likeTokens (str ['p']) (str ['a', '%', 'b']))) = .ok f ∧
      (f (named (str ['a', '\n', 'b'])) = .bool true ↔
        Wildcard (str ['a', '%', 'b']) (str ['a', '\n', 'b'])) := by
  rintro ⟨f, parsed, exact_⟩
  rw [parse_like readDouble named_ident] at parsed
  cases parsed
  have matched : Wildcard (str ['a', '%', 'b']) (str ['a', '\n', 'b']) :=
    .char (by decide) (by decide) (.percent [byte '\n'] (.char (by decide) (by decide) .nil))
  have missed : regexMatch (str ['a', '\n', 'b']) (likeToRegex (str ['a', '%', 'b'])) = false := by
    decide +kernel
  have held : get (named (str ['a', '\n', 'b'])) (str ['p']) =
      some (.value (.string (str ['a', '\n', 'b']))) := rfl
  have answer := exact_.mpr matched
  rw [like_string _ held, missed] at answer
  cases answer

end Selectors
end TinyMqLikePatterns
