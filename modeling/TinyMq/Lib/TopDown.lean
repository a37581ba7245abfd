import Mathlib.Data.List.Basic

/- Recursive descent with one token of lookahead. A parser takes tokens off a list or
   raises an exception. What it takes is a phrase of a language, in which a phrase has a
   value; a parser reads a language when it finds the phrases of it and their values. -/
namespace TopDown
variable {τ ε α β : Type}

abbrev Parser (τ ε α : Type) := StateT (List τ) (Except ε) α

/-- The phrases with their values. -/
abbrev Language (τ α : Type) := List τ → α → Prop

/-- Where the tokens come from: what the step behind the last one raises, what taking the
    value of a token raises, and which exceptions refuse the text. -/
structure Source (τ ε : Type) where
  stop : Option ε
  raises : τ → Option ε
  refused : ε → Prop
  stops : ∀ e ∈ stop, refused e

def nextIs (test : τ → Bool) : Parser τ ε Bool := fun ts => .ok (ts.head?.any test, ts)

def skip (stop : Option ε) : Parser τ ε Unit
  | [] => .ok ((), [])
  | [_] => match stop with
    | none => .ok ((), [])
    | some e => .error e
  | _ :: t :: ts => .ok ((), t :: ts)

/-- `while (test) body`: a round takes a token at least, so the tokens bound the rounds. -/
def rounds (test : τ → Bool) (body : α → Parser τ ε α) : Nat → α → Parser τ ε α
  | 0, a => pure a
  | n + 1, a => do
    if ← nextIs test then
      let b ← body a
      rounds test body n b
    else pure a

def whileNext (test : τ → Bool) (body : α → Parser τ ε α) (a : α) : Parser τ ε α :=
  fun ts => rounds test body (ts.length + 1) a ts

namespace Language

def empty (a : α) : Language τ α := fun us b => us = [] ∧ b = a

def token (test : τ → Bool) (L : τ → Language τ α) : Language τ α :=
  fun us a => ∃ t vs, us = t :: vs ∧ test t = true ∧ L t vs a

def seq (L : Language τ α) (M : α → Language τ β) : Language τ β :=
  fun us b => ∃ vs ws a, us = vs ++ ws ∧ L vs a ∧ M a ws b

def either (L M : Language τ α) : Language τ α := fun us a => L us a ∨ M us a

def Nonempty (L : Language τ α) : Prop := ∃ us a, L us a

theorem empty_nonempty (a : α) : (empty a : Language τ α).Nonempty := ⟨[], a, rfl, rfl⟩

theorem Nonempty.token {test : τ → Bool} {L : τ → Language τ α} {t : τ} (good : test t = true)
    (some_ : (L t).Nonempty) : (token test L).Nonempty := by
  obtain ⟨us, a, phrase⟩ := some_
  exact ⟨t :: us, a, t, us, rfl, good, phrase⟩

theorem Nonempty.seq {L : Language τ α} {M : α → Language τ β} (first : L.Nonempty)
    (next : ∀ a, (M a).Nonempty) : (seq L M).Nonempty := by
  obtain ⟨us, a, phrase⟩ := first
  obtain ⟨vs, b, phrase'⟩ := next a
  exact ⟨us ++ vs, b, us, vs, a, rfl, phrase, phrase'⟩

/-- Rounds of a token and a phrase, each from the value that the rounds before it made. -/
inductive Chain (test : τ → Bool) (L : α → Language τ α) : α → Language τ α where
  | stop (a : α) : Chain test L a [] a
  | round {a b c : α} {t : τ} {us vs : List τ} :
      test t = true → L a us b → Chain test L b vs c → Chain test L a (t :: (us ++ vs)) c

end Language

section Rules
variable {S : Source τ ε}

/-- On fewer than `n` tokens the parser finds the phrases of the language, except before a
    token that could go on with one, raises what a token of a phrase raises, and raises
    nothing else but a refusal. -/
structure Reads (S : Source τ ε) (n : Nat) (p : Parser τ ε α) (L : Language τ α)
    (more : τ → Prop) : Prop where
  sound : ∀ {ts rest a}, ts.length < n → p ts = .ok (a, rest) →
    ∃ us, ts = us ++ rest ∧ L us a ∧ ∀ u ∈ us, S.raises u = none
  complete : ∀ {us rest a}, (us ++ rest).length < n → L us a → (∀ u ∈ us, S.raises u = none) →
    (∀ t ∈ rest.head?, ¬ more t) → (S.stop = none ∨ rest ≠ []) → p (us ++ rest) = .ok (a, rest)
  blocks : ∀ {us vs ws t a e}, (us ++ t :: ws).length < n → L (us ++ t :: vs) a →
    (∀ u ∈ us, S.raises u = none) → S.raises t = some e → p (us ++ t :: ws) = .error e
  fails : ∀ {ts e}, ts.length < n → p ts = .error e → S.refused e ∨
    ∃ us t ws, ts = us ++ t :: ws ∧ S.raises t = some e ∧ ∃ vs a, L (us ++ t :: vs) a

theorem bind_ok {p : Parser τ ε α} {k : α → Parser τ ε β} {ts mid : List τ} {a : α}
    (done : p ts = .ok (a, mid)) : (p >>= k) ts = k a mid := by
  change (p ts >>= fun r => k r.1 r.2) = k a mid
  rw [done]
  rfl

theorem bind_error {p : Parser τ ε α} {ts : List τ} {e : ε} (k : α → Parser τ ε β)
    (failed : p ts = .error e) : (p >>= k) ts = .error e := by
  change (p ts >>= fun r => k r.1 r.2) = .error e
  rw [failed]
  rfl

theorem bind_at {p q : Parser τ ε α} {ts : List τ} (k : α → Parser τ ε β) (same : p ts = q ts) :
    (p >>= k) ts = (q >>= k) ts := by
  change (p ts >>= fun r => k r.1 r.2) = (q ts >>= fun r => k r.1 r.2)
  rw [same]

theorem Reads.mono {m n : Nat} {p : Parser τ ε α} {L : Language τ α} {more : τ → Prop}
    (reads : Reads S n p L more) (less : m ≤ n) : Reads S m p L more where
  sound short := reads.sound (by omega)
  complete short := reads.complete (by omega)
  blocks short := reads.blocks (by omega)
  fails short := reads.fails (by omega)

theorem Reads.congr {n : Nat} {p : Parser τ ε α} {L M : Language τ α} {more : τ → Prop}
    (reads : Reads S n p L more) (same : ∀ us a, L us a ↔ M us a) : Reads S n p M more := by
  have equal : L = M := by
    funext us a
    exact propext (same us a)
  rwa [← equal]

theorem Reads.zero (p : Parser τ ε α) (L : Language τ α) (more : τ → Prop) :
    Reads S 0 p L more := by
  constructor <;> intros <;> omega

theorem Reads.pure (n : Nat) (a : α) (more : τ → Prop) :
    Reads S n (Pure.pure a) (Language.empty a) more where
  sound := by
    intro ts rest b _ done
    obtain ⟨rfl, rfl⟩ : a = b ∧ ts = rest := by simpa using Except.ok.inj done
    exact ⟨[], rfl, ⟨rfl, rfl⟩, by simp⟩
  complete := by
    rintro us rest b _ ⟨rfl, rfl⟩ _ _ _
    rfl
  blocks := by
    rintro us vs ws t b e _ ⟨nothing, _⟩
    simp at nothing
  fails := by
    intro ts e _ failed
    cases failed

theorem Reads.refuse {n : Nat} {p : Parser τ ε α} {more : τ → Prop}
    (refuses : ∀ ts, ∃ e, S.refused e ∧ p ts = .error e) :
    Reads S n p (fun _ _ => False) more where
  sound := by
    intro ts rest a _ done
    obtain ⟨e, _, failed⟩ := refuses ts
    rw [failed] at done
    cases done
  complete := by
    intro us rest a _ phrase
    exact phrase.elim
  blocks := by
    intro us vs ws t a e _ phrase
    exact phrase.elim
  fails := by
    intro ts e _ failed
    obtain ⟨e', refused, failed'⟩ := refuses ts
    rw [failed'] at failed
    cases failed
    exact .inl refused

/-- A token of two phrases in a row is in the first or in the second. -/
theorem cut_at {us vs xs ys : List τ} {t : τ} (cut : us ++ t :: vs = xs ++ ys) :
    (∃ zs, xs = us ++ t :: zs ∧ vs = zs ++ ys) ∨ ∃ zs, us = xs ++ zs ∧ ys = zs ++ t :: vs := by
  rcases List.append_eq_append_iff.mp cut with ⟨zs, rfl, tail⟩ | ⟨zs, rfl, tail⟩
  · cases zs with
    | nil => exact .inr ⟨[], by simp, by simpa using tail.symm⟩
    | cons z zs =>
      obtain ⟨rfl, rfl⟩ : t = z ∧ vs = zs ++ ys := by simpa using tail
      exact .inl ⟨zs, rfl, rfl⟩
  · exact .inr ⟨zs, rfl, tail⟩

theorem head_apart {M : Language τ β} {more : τ → Prop}
    (apart : ∀ t us b, M (t :: us) b → ¬ more t) {zs vs : List τ} {t : τ} {b : β}
    (phrase : M (zs ++ t :: vs) b) (ws : List τ) : ∀ u ∈ (zs ++ t :: ws).head?, ¬ more u := by
  intro u head
  cases zs with
  | nil =>
    obtain rfl : t = u := by simpa using head
    exact apart t vs b phrase
  | cons z zs =>
    obtain rfl : z = u := by simpa using head
    exact apart z (zs ++ t :: vs) b phrase

theorem Reads.bind {n : Nat} {p : Parser τ ε α} {k : α → Parser τ ε β} {L : Language τ α}
    {M : α → Language τ β} {more more' : τ → Prop} (first : Reads S n p L more)
    (next : ∀ a, Reads S n (k a) (M a) more')
    (apart : ∀ a t us b, M a (t :: us) b → ¬ more t)
    (ends : ∀ a b, M a [] b → ∀ t, more t → more' t)
    (yields : ∀ a, (M a).Nonempty) : Reads S n (p >>= k) (Language.seq L M) more' where
  sound := by
    intro ts rest b short done
    cases read : p ts with
    | error e =>
      rw [bind_error k read] at done
      cases done
    | ok r =>
      obtain ⟨a, mid⟩ := r
      rw [bind_ok read] at done
      obtain ⟨us, rfl, phrase, quiet⟩ := first.sound short read
      simp only [List.length_append] at short
      obtain ⟨vs, rfl, phrase', quiet'⟩ := (next a).sound (by omega) done
      refine ⟨us ++ vs, by simp, ⟨us, vs, a, rfl, phrase, phrase'⟩, ?_⟩
      intro u member
      rcases List.mem_append.mp member with inside | inside
      · exact quiet u inside
      · exact quiet' u inside
  complete := by
    rintro us rest b short ⟨vs, ws, a, rfl, phrase, phrase'⟩ quiet behind open_
    have follows : ∀ t ∈ (ws ++ rest).head?, ¬ more t := by
      intro t head
      cases ws with
      | nil => exact fun goes => behind t head (ends a b phrase' t goes)
      | cons w ws =>
        obtain rfl : w = t := by simpa using head
        exact apart a w ws b phrase'
    have open' : S.stop = none ∨ ws ++ rest ≠ [] := by
      rcases open_ with never | some_
      · exact .inl never
      · exact .inr (by simp [some_])
    rw [List.append_assoc] at short ⊢
    have read := first.complete short phrase
      (fun u member => quiet u (List.mem_append_left ws member)) follows open'
    rw [bind_ok read]
    rw [List.length_append] at short
    exact (next a).complete (by omega) phrase'
      (fun u member => quiet u (List.mem_append_right vs member)) behind open_
  blocks := by
    rintro us vs ws t b e short ⟨xs, ys, a, cut, phrase, phrase'⟩ quiet raised
    rcases cut_at cut with ⟨zs, rfl, rfl⟩ | ⟨zs, rfl, rfl⟩
    · exact bind_error k (first.blocks short phrase quiet raised)
    · rw [List.append_assoc] at short ⊢
      have read := first.complete short phrase
        (fun u member => quiet u (List.mem_append_left zs member))
        (head_apart (apart a) phrase' ws) (.inr (by simp))
      rw [bind_ok read]
      rw [List.length_append] at short
      exact (next a).blocks (by omega) phrase'
        (fun u member => quiet u (List.mem_append_right xs member)) raised
  fails := by
    intro ts e short failed
    cases read : p ts with
    | error e' =>
      rw [bind_error k read] at failed
      cases failed
      rcases first.fails short read with refused | ⟨us, t, ws, rfl, raised, vs, a, phrase⟩
      · exact .inl refused
      · obtain ⟨xs, b, phrase'⟩ := yields a
        exact .inr ⟨us, t, ws, rfl, raised, vs ++ xs, b, us ++ t :: vs, xs, a, by simp, phrase,
          phrase'⟩
    | ok r =>
      obtain ⟨a, mid⟩ := r
      rw [bind_ok read] at failed
      obtain ⟨us, rfl, phrase, _⟩ := first.sound short read
      rw [List.length_append] at short
      rcases (next a).fails (by omega) failed with refused | ⟨xs, t, ws, rfl, raised, vs, b, phrase'⟩
      · exact .inl refused
      · exact .inr ⟨us ++ xs, t, ws, by simp, raised, vs, b, us, xs ++ t :: vs, a, by simp, phrase,
          phrase'⟩

/-- Behind a phrase that no token goes on with, anything may follow. -/
theorem Reads.andThen {n : Nat} {p : Parser τ ε α} {k : α → Parser τ ε β} {L : Language τ α}
    {M : α → Language τ β} {more : τ → Prop} (first : Reads S n p L fun _ => False)
    (next : ∀ a, Reads S n (k a) (M a) more) (yields : ∀ a, (M a).Nonempty) :
    Reads S n (p >>= k) (Language.seq L M) more := by
  apply first.bind next
  · intro a t us b _ never
    exact never
  · intro a b _ t never
    exact never.elim
  · exact yields

def take (S : Source τ ε) (t : τ) (k : Parser τ ε α) : Parser τ ε α := fun ts =>
  match S.raises t with
  | some e => .error e
  | none => (skip S.stop >>= fun _ => k) ts

theorem take_raises {t : τ} {e : ε} (k : Parser τ ε α) (raised : S.raises t = some e)
    (ts : List τ) : take S t k ts = .error e := by
  unfold take
  rw [raised]

theorem skip_open {stop : Option ε} {t : τ} {ts : List τ} (open_ : stop = none ∨ ts ≠ []) :
    skip stop (t :: ts) = .ok ((), ts) := by
  cases ts with
  | nil =>
    rcases open_ with rfl | some_
    · rfl
    · exact absurd rfl some_
  | cons u ts => rfl

theorem take_quiet {t : τ} (k : Parser τ ε α) (quiet : S.raises t = none) {ts : List τ}
    (open_ : S.stop = none ∨ ts ≠ []) : take S t k (t :: ts) = k ts := by
  unfold take
  rw [quiet]
  exact bind_ok (skip_open open_)

theorem take_bind (t : τ) (p : Parser τ ε α) (f : α → Parser τ ε β) (ts : List τ) :
    (take S t p >>= f) ts = take S t (p >>= f) ts := by
  cases raised : S.raises t with
  | some e => rw [take_raises _ raised, bind_error _ (take_raises _ raised ts)]
  | none =>
    have taken : ∀ (q : Parser τ ε β), take S t q ts = (skip S.stop >>= fun _ => q) ts := by
      intro q
      unfold take
      rw [raised]
    have taken' : take S t p ts = (skip S.stop >>= fun _ => p) ts := by
      unfold take
      rw [raised]
    rw [taken, bind_at f taken', bind_assoc]

theorem take_cases (t : τ) (k : Parser τ ε α) (ts : List τ) :
    (∃ e, S.raises t = some e ∧ take S t k (t :: ts) = .error e) ∨
    (∃ e, S.refused e ∧ take S t k (t :: ts) = .error e) ∨
    S.raises t = none ∧ take S t k (t :: ts) = k ts := by
  cases raised : S.raises t with
  | some e => exact .inl ⟨e, rfl, take_raises k raised _⟩
  | none =>
    by_cases open_ : S.stop = none ∨ ts ≠ []
    · exact .inr (.inr ⟨rfl, take_quiet k raised open_⟩)
    · obtain ⟨stops, rfl⟩ : S.stop ≠ none ∧ ts = [] := by simpa using open_
      obtain ⟨e, stop⟩ := Option.ne_none_iff_exists'.mp stops
      refine .inr (.inl ⟨e, S.stops e stop, ?_⟩)
      unfold take
      rw [raised]
      exact bind_error _ (by simp [skip, stop])

section Token
variable {n : Nat} {test : τ → Bool} {k : τ → Parser τ ε α} {L : τ → Language τ α}
  {more : τ → Prop}

theorem take_sound (next : ∀ t, test t = true → Reads S n (k t) (L t) more) {t : τ}
    {ts rest : List τ} {a : α} (good : test t = true) (short : (t :: ts).length < n + 1)
    (done : take S t (k t) (t :: ts) = .ok (a, rest)) :
    ∃ us, t :: ts = us ++ rest ∧ Language.token test L us a ∧ ∀ u ∈ us, S.raises u = none := by
  rcases take_cases (S := S) t (k t) ts with ⟨e, _, failed⟩ | ⟨e, _, failed⟩ | ⟨quiet, went⟩
  · rw [failed] at done
    cases done
  · rw [failed] at done
    cases done
  · rw [went] at done
    rw [List.length_cons] at short
    obtain ⟨us, rfl, phrase, quiet'⟩ := (next t good).sound (by omega) done
    refine ⟨t :: us, rfl, ⟨t, us, rfl, good, phrase⟩, ?_⟩
    intro u member
    rcases List.mem_cons.mp member with rfl | later
    · exact quiet
    · exact quiet' u later

theorem take_complete (next : ∀ t, test t = true → Reads S n (k t) (L t) more) {t : τ}
    {vs rest : List τ} {a : α} (good : test t = true) (short : (t :: vs ++ rest).length < n + 1)
    (phrase : L t vs a) (quiet : ∀ u ∈ t :: vs, S.raises u = none)
    (behind : ∀ t ∈ rest.head?, ¬ more t) (open_ : S.stop = none ∨ rest ≠ []) :
    take S t (k t) (t :: (vs ++ rest)) = .ok (a, rest) := by
  have open' : S.stop = none ∨ vs ++ rest ≠ [] := by
    rcases open_ with never | some_
    · exact .inl never
    · exact .inr (by simp [some_])
  rw [take_quiet _ (quiet t List.mem_cons_self) open']
  rw [List.cons_append, List.length_cons] at short
  exact (next t good).complete (by omega) phrase
    (fun u member => quiet u (List.mem_cons_of_mem t member)) behind open_

theorem take_blocks (next : ∀ t, test t = true → Reads S n (k t) (L t) more) {u t : τ}
    {us vs ws : List τ} {a : α} {e : ε} (good : test u = true)
    (short : (u :: (us ++ t :: ws)).length < n + 1) (phrase : L u (us ++ t :: vs) a)
    (quiet : ∀ v ∈ u :: us, S.raises v = none) (raised : S.raises t = some e) :
    take S u (k u) (u :: (us ++ t :: ws)) = .error e := by
  rw [take_quiet _ (quiet u List.mem_cons_self) (.inr (by simp))]
  rw [List.length_cons] at short
  exact (next u good).blocks (by omega) phrase
    (fun v member => quiet v (List.mem_cons_of_mem u member)) raised

theorem take_fails (next : ∀ t, test t = true → Reads S n (k t) (L t) more)
    (yields : ∀ t, test t = true → (L t).Nonempty) {t : τ} {ts : List τ} {e : ε}
    (good : test t = true) (short : (t :: ts).length < n + 1)
    (failed : take S t (k t) (t :: ts) = .error e) : S.refused e ∨
    ∃ us u ws, t :: ts = us ++ u :: ws ∧ S.raises u = some e ∧
      ∃ vs a, Language.token test L (us ++ u :: vs) a := by
  rcases take_cases (S := S) t (k t) ts with ⟨e', raised, failed'⟩ | ⟨e', refused, failed'⟩ |
    ⟨quiet, went⟩
  · rw [failed'] at failed
    cases failed
    obtain ⟨us, a, phrase⟩ := yields t good
    exact .inr ⟨[], t, ts, rfl, raised, us, a, t, us, rfl, good, phrase⟩
  · rw [failed'] at failed
    cases failed
    exact .inl refused
  · rw [went] at failed
    rw [List.length_cons] at short
    rcases (next t good).fails (by omega) failed with refused |
      ⟨us, u, ws, rfl, raised, vs, a, phrase⟩
    · exact .inl refused
    · exact .inr ⟨t :: us, u, ws, rfl, raised, vs, a, t, us ++ u :: vs, rfl, good, phrase⟩

end Token

theorem starts (test : τ → Bool) (ts : List τ) :
    (∃ t us, ts = t :: us ∧ test t = true) ∨ ∀ t ∈ ts.head?, test t = false := by
  cases ts with
  | nil => exact .inr (by simp)
  | cons t ts =>
    cases good : test t with
    | true => exact .inl ⟨t, ts, rfl, good⟩
    | false => exact .inr (by simpa using good)

theorem nextIs_true {test : τ → Bool} {p q : Parser τ ε α} {t : τ} (good : test t = true)
    (ts : List τ) :
    (nextIs test >>= fun b => if b = true then p else q) (t :: ts) = p (t :: ts) := by
  have seen : (nextIs test : Parser τ ε Bool) (t :: ts) = .ok (true, t :: ts) := by
    simp [nextIs, good]
  rw [bind_ok seen]
  rfl

theorem nextIs_false {test : τ → Bool} (p : Parser τ ε α) {q : Parser τ ε α} {ts : List τ}
    (bad : ∀ t ∈ ts.head?, test t = false) :
    (nextIs test >>= fun b => if b = true then p else q) ts = q ts := by
  have seen : (nextIs test : Parser τ ε Bool) ts = .ok (false, ts) := by
    cases ts with
    | nil => rfl
    | cons t ts => simp [nextIs, bad t rfl]
  rw [bind_ok seen]
  rfl

/-- A token tells which way to go: it belongs to the one phrase, and neither begins nor
    goes on with the other. -/
theorem Reads.branch {n : Nat} {test : τ → Bool} {p q : Parser τ ε α} {k : τ → Parser τ ε α}
    {L : τ → Language τ α} {M : Language τ α} {more : τ → Prop}
    (taken : ∀ t ts, test t = true → p (t :: ts) = take S t (k t) (t :: ts))
    (next : ∀ t, test t = true → Reads S n (k t) (L t) more)
    (otherwise : Reads S (n + 1) q M more)
    (apart : ∀ t us a, M (t :: us) a → test t = false)
    (ends : ∀ a, M [] a → ∀ t, test t = true → more t)
    (yields : ∀ t, test t = true → (L t).Nonempty) :
    Reads S (n + 1) (nextIs test >>= fun b => if b = true then p else q)
      (Language.either (Language.token test L) M) more where
  sound := by
    intro ts rest a short done
    rcases starts test ts with ⟨t, ts', rfl, good⟩ | bad
    · rw [nextIs_true good, taken t ts' good] at done
      obtain ⟨us, cut, phrase, quiet⟩ := take_sound next good short done
      exact ⟨us, cut, .inl phrase, quiet⟩
    · rw [nextIs_false p bad] at done
      obtain ⟨us, cut, phrase, quiet⟩ := otherwise.sound short done
      exact ⟨us, cut, .inr phrase, quiet⟩
  complete := by
    intro us rest a short phrase quiet behind open_
    rcases phrase with ⟨t, vs, rfl, good, phrase⟩ | phrase
    · rw [List.cons_append, nextIs_true good, taken t _ good]
      exact take_complete next good short phrase quiet behind open_
    · rw [nextIs_false]
      · exact otherwise.complete short phrase quiet behind open_
      · intro t head
        cases us with
        | nil =>
          by_contra good
          exact behind t head (ends a phrase t (by simpa using good))
        | cons u us =>
          obtain rfl : u = t := by simpa using head
          exact apart u us a phrase
  blocks := by
    intro us vs ws t a e short phrase quiet raised
    rcases phrase with ⟨u, xs, cut, good, phrase⟩ | phrase
    · cases us with
      | nil =>
        obtain ⟨rfl, rfl⟩ : t = u ∧ vs = xs := by simpa using cut
        rw [List.nil_append, nextIs_true good, taken t ws good, take_raises _ raised]
      | cons v us =>
        obtain ⟨rfl, rfl⟩ : v = u ∧ us ++ t :: vs = xs := by simpa using cut
        rw [List.cons_append, nextIs_true good, taken v _ good]
        exact take_blocks next good short phrase quiet raised
    · rw [nextIs_false]
      · exact otherwise.blocks short phrase quiet raised
      · intro u head
        have other : ∀ u ∈ (us ++ t :: ws).head?, ¬ test u = true :=
          head_apart (by simpa using apart) phrase ws
        simpa using other u head
  fails := by
    intro ts e short failed
    rcases starts test ts with ⟨t, ts', rfl, good⟩ | bad
    · rw [nextIs_true good, taken t ts' good] at failed
      rcases take_fails next yields good short failed with refused | ⟨us, u, ws, cut, raised, vs, a, phrase⟩
      · exact .inl refused
      · exact .inr ⟨us, u, ws, cut, raised, vs, a, .inl phrase⟩
    · rw [nextIs_false p bad] at failed
      rcases otherwise.fails short failed with refused | ⟨us, u, ws, cut, raised, vs, a, phrase⟩
      · exact .inl refused
      · exact .inr ⟨us, u, ws, cut, raised, vs, a, .inr phrase⟩

theorem seq_chain {test : τ → Bool} {L : α → Language τ α} (a : α) (us : List τ) (c : α) :
    Language.either (Language.token test fun _ => Language.seq (L a) (Language.Chain test L))
      (Language.empty a) us c ↔ Language.Chain test L a us c := by
  constructor
  · rintro (⟨t, vs, rfl, good, ws, xs, b, rfl, phrase, later⟩ | ⟨rfl, rfl⟩)
    · exact .round good phrase later
    · exact .stop c
  · intro chain
    cases chain with
    | stop => exact .inr ⟨rfl, rfl⟩
    | round good phrase later => exact .inl ⟨_, _, rfl, good, _, _, _, rfl, phrase, later⟩

theorem chain_head {test : τ → Bool} {L : α → Language τ α} {a c : α} {t : τ} {us : List τ}
    (chain : Language.Chain test L a (t :: us) c) : test t = true := by
  cases chain with
  | round good => exact good

theorem Reads.rounds {n : Nat} {test : τ → Bool} {body : α → Parser τ ε α}
    {k : α → τ → Parser τ ε α} {L : α → Language τ α} {more more' : τ → Prop}
    (taken : ∀ a t ts, test t = true → body a (t :: ts) = take S t (k a t) (t :: ts))
    (next : ∀ a t, test t = true → Reads S n (k a t) (L a) more)
    (apart : ∀ t, test t = true → ¬ more t) (ends : ∀ t, more t → more' t)
    (ends' : ∀ t, test t = true → more' t) (yields : ∀ a, (L a).Nonempty) {m : Nat}
    (less : m ≤ n + 1) (a : α) :
    Reads S m (rounds test body m a) (Language.Chain test L a) more' := by
  induction m generalizing a with
  | zero => exact Reads.zero _ _ _
  | succ m ih =>
    apply Reads.congr _ (seq_chain a)
    apply Reads.branch (k := fun t => k a t >>= TopDown.rounds test body m)
    · intro t ts good
      exact (bind_at _ (taken a t ts good)).trans (take_bind _ _ _ _)
    · intro t good
      apply ((next a t good).mono (by omega)).bind (ih (by omega))
      · intro b u us c chain
        exact apart u (chain_head chain)
      · intro b c _
        exact ends
      · intro b
        exact ⟨[], b, .stop b⟩
    · exact Reads.pure _ _ _
    · rintro t us c ⟨nothing, _⟩
      cases nothing
    · intro c _ t good
      exact ends' t good
    · intro t _
      exact (yields a).seq fun b => ⟨[], b, .stop b⟩

theorem Reads.whileNext {n : Nat} {test : τ → Bool} {body : α → Parser τ ε α}
    {k : α → τ → Parser τ ε α} {L : α → Language τ α} {more more' : τ → Prop}
    (taken : ∀ a t ts, test t = true → body a (t :: ts) = take S t (k a t) (t :: ts))
    (next : ∀ a t, test t = true → Reads S n (k a t) (L a) more)
    (apart : ∀ t, test t = true → ¬ more t) (ends : ∀ t, more t → more' t)
    (ends' : ∀ t, test t = true → more' t) (yields : ∀ a, (L a).Nonempty) (a : α) :
    Reads S (n + 1) (whileNext test body a) (Language.Chain test L a) more' := by
  have runs : ∀ m, m ≤ n + 1 → Reads S m (TopDown.rounds test body m a) _ more' :=
    fun m less => Reads.rounds taken next apart ends ends' yields less a
  constructor
  · intro ts rest b short done
    exact (runs _ short).sound (Nat.lt_succ_self _) done
  · intro us rest b short
    exact (runs _ short).complete (Nat.lt_succ_self _)
  · intro us vs ws t b e short
    exact (runs _ short).blocks (Nat.lt_succ_self _)
  · intro ts e short failed
    exact (runs _ short).fails (Nat.lt_succ_self _) failed

end Rules
section Stops

/-- What a parser does where the step behind the last token raises: it leaves a token. -/
def LeavesSome (p : Parser τ ε α) : Prop :=
  ∀ ts rest a, ts ≠ [] → p ts = .ok (a, rest) → rest ≠ []

theorem LeavesSome.pure (a : α) : LeavesSome (Pure.pure a : Parser τ ε α) := by
  intro ts rest b some_ done
  obtain ⟨rfl, rfl⟩ : a = b ∧ ts = rest := by simpa using Except.ok.inj done
  exact some_

theorem LeavesSome.error {p : Parser τ ε α} (fails : ∀ ts, ∃ e, p ts = .error e) : LeavesSome p := by
  intro ts rest a _ done
  obtain ⟨e, failed⟩ := fails ts
  rw [failed] at done
  cases done

theorem LeavesSome.nextIs (test : τ → Bool) :
    LeavesSome (TopDown.nextIs test : Parser τ ε Bool) := by
  intro ts rest b some_ done
  obtain ⟨_, rfl⟩ : ts.head?.any test = b ∧ ts = rest := by simpa using Except.ok.inj done
  exact some_

theorem LeavesSome.skip (e : ε) : LeavesSome (TopDown.skip (some e) : Parser τ ε Unit) := by
  intro ts rest u some_ done
  match ts with
  | [] => exact absurd rfl some_
  | [_] => cases done
  | _ :: t :: ts =>
    cases done
    exact List.cons_ne_nil t ts

theorem LeavesSome.bind {p : Parser τ ε α} {k : α → Parser τ ε β} (first : LeavesSome p)
    (next : ∀ a, LeavesSome (k a)) : LeavesSome (p >>= k) := by
  intro ts rest b some_ done
  cases read : p ts with
  | error e =>
    rw [bind_error k read] at done
    cases done
  | ok r =>
    obtain ⟨a, mid⟩ := r
    rw [bind_ok read] at done
    exact next a mid rest b (first ts mid a some_ read) done

theorem LeavesSome.branch {test : τ → Bool} {p q : Parser τ ε α} (yes : LeavesSome p)
    (no : LeavesSome q) : LeavesSome (TopDown.nextIs test >>= fun b => if b = true then p else q) := by
  apply (LeavesSome.nextIs test).bind
  intro b
  cases b with
  | true => exact yes
  | false => exact no

theorem LeavesSome.whileNext {test : τ → Bool} {body : α → Parser τ ε α}
    (round : ∀ a, LeavesSome (body a)) (a : α) : LeavesSome (TopDown.whileNext test body a) := by
  have runs : ∀ n a, LeavesSome (TopDown.rounds test body n a) := by
    intro n
    induction n with
    | zero => exact LeavesSome.pure
    | succ n ih =>
      intro a
      exact ((round a).bind ih).branch (LeavesSome.pure a)
  intro ts rest b some_ done
  exact runs (ts.length + 1) a ts rest b some_ done

end Stops

end TopDown
