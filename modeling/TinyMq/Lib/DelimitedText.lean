import Mathlib.Data.List.Basic

/- Text as a list of characters, in lines and in delimited fields. A text is
   plain when it holds no white space and no delimiter, so that it survives
   being written between delimiters, cut out again and trimmed. -/
namespace DelimitedText

abbrev Text := List Char

/-- The white space of ASCII: the blank and the five control characters from tab on. -/
def isSpace (c : Char) : Bool := c = ' ' || 9 ≤ c.toNat && c.toNat ≤ 13

def trim (t : Text) : Text :=
  ((t.dropWhile isSpace).reverse.dropWhile isSpace).reverse

def Plain (c : Char) (t : Text) : Prop := ∀ x ∈ t, x ≠ c ∧ isSpace x = false

def unlines (ls : List Text) : Text := ls.flatMap fun line => line ++ ['\n']

/-- The lines of a file that hold anything; the last one may lack its newline. -/
def lines (t : Text) : List Text := (t.splitOn '\n').filter fun line => !line.isEmpty

theorem Plain.clean {c : Char} {t : Text} (plain : Plain c t) : c ∉ t := by
  intro member
  exact (plain c member).1 rfl

theorem Plain.append {c : Char} {s t : Text} (first : Plain c s) (second : Plain c t) :
    Plain c (s ++ t) := by
  intro x member
  rcases List.mem_append.mp member with inside | inside
  · exact first x inside
  · exact second x inside

section Scans
variable {α : Type} {p : α → Bool} {s rest : List α}

theorem takeWhile_upTo (pass : ∀ c ∈ s, p c = true) (stops : ∀ c ∈ rest.head?, p c = false) :
    (s ++ rest).takeWhile p = s := by
  rw [List.takeWhile_append_of_pos pass]
  cases rest with
  | nil => simp
  | cons c rest => simp [stops c rfl]

theorem dropWhile_upTo (pass : ∀ c ∈ s, p c = true) (stops : ∀ c ∈ rest.head?, p c = false) :
    (s ++ rest).dropWhile p = rest := by
  rw [List.dropWhile_append_of_pos pass]
  cases rest with
  | nil => rfl
  | cons c rest => simp [stops c rfl]

end Scans

theorem dropWhile_plain {c : Char} {t : Text} (plain : Plain c t) :
    t.dropWhile isSpace = t := by
  cases t with
  | nil => rfl
  | cons x t => simp [(plain x (by simp)).2]

theorem Plain.trim {c : Char} {t : Text} (plain : Plain c t) : trim t = t := by
  have reversed : Plain c t.reverse := by
    intro x member
    exact plain x (by simpa using member)
  unfold DelimitedText.trim
  rw [dropWhile_plain plain, dropWhile_plain reversed, List.reverse_reverse]

theorem mem_trim {c : Char} {t : Text} (member : c ∈ trim t) : c ∈ t := by
  unfold trim at member
  rw [List.mem_reverse] at member
  have inside := (List.dropWhile_sublist _).subset member
  rw [List.mem_reverse] at inside
  exact (List.dropWhile_sublist _).subset inside

theorem mem_splitOn {sep c : Char} {t piece : Text} (split : piece ∈ t.splitOn sep)
    (member : c ∈ piece) : c ∈ t := by
  induction t generalizing piece with
  | nil =>
    rw [List.splitOn_nil, List.mem_singleton] at split
    rwa [split] at member
  | cons x t ih =>
    rw [List.splitOn_cons_eq_if_modifyHead] at split
    split at split
    · rcases List.mem_cons.mp split with rfl | later
      · cases member
      · exact List.mem_cons_of_mem x (ih later member)
    · cases pieces : t.splitOn sep with
      | nil => exact absurd pieces (List.splitOn_ne_nil sep t)
      | cons p ps =>
        rw [pieces, List.modifyHead_cons] at split
        rcases List.mem_cons.mp split with rfl | later
        · rcases List.mem_cons.mp member with rfl | inside
          · exact List.mem_cons_self
          · exact List.mem_cons_of_mem x (ih (by simp [pieces]) inside)
        · exact List.mem_cons_of_mem x (ih (by simp [pieces, later]) member)

theorem splitOn_unlines {ls : List Text} (clean : ∀ line ∈ ls, '\n' ∉ line) (rest : Text) :
    (unlines ls ++ rest).splitOn '\n' = ls ++ rest.splitOn '\n' := by
  induction ls with
  | nil => rfl
  | cons line ls ih =>
    have here : '\n' ∉ line := clean line (by simp)
    have tail := ih fun l member => clean l (List.mem_cons_of_mem line member)
    have layout : unlines (line :: ls) ++ rest = line ++ '\n' :: (unlines ls ++ rest) := by
      simp [unlines]
    rw [layout, List.splitOn_append_cons_self_of_not_mem here, tail, List.cons_append]

theorem lines_unlines {ls : List Text} (clean : ∀ line ∈ ls, '\n' ∉ line) :
    lines (unlines ls) = ls.filter fun line => !line.isEmpty := by
  have pieces := splitOn_unlines clean []
  rw [List.append_nil, List.splitOn_nil] at pieces
  unfold lines
  rw [pieces, List.filter_append]
  simp

theorem splitOn_tail {ls : List Text} (clean : ∀ line ∈ ls, '\n' ∉ line) {torn : Text}
    (tail : '\n' ∉ torn) : (unlines ls ++ torn).splitOn '\n' = ls ++ [torn] := by
  rw [splitOn_unlines clean, List.splitOn_eq_singleton tail]

/-- What stands behind the last newline. -/
def lastLine (t : Text) : Text := (t.splitOn '\n').getLast (List.splitOn_ne_nil '\n' t)

theorem lastLine_tail {ls : List Text} (clean : ∀ line ∈ ls, '\n' ∉ line) {torn : Text}
    (tail : '\n' ∉ torn) : lastLine (unlines ls ++ torn) = torn := by
  unfold lastLine
  simp only [splitOn_tail clean tail, List.getLast_concat]

@[simp] theorem unlines_nil : unlines [] = [] := rfl

theorem unlines_cons (line : Text) (ls : List Text) :
    unlines (line :: ls) = line ++ ['\n'] ++ unlines ls := rfl

theorem unlines_append (ls ms : List Text) : unlines (ls ++ ms) = unlines ls ++ unlines ms := by
  simp [unlines]

theorem prefix_unlines {ls : List Text} (clean : ∀ line ∈ ls, '\n' ∉ line) {t : Text}
    (cut : t <+: unlines ls) :
    ∃ n part, t = unlines (ls.take n) ++ part ∧ '\n' ∉ part := by
  induction ls generalizing t with
  | nil =>
    rw [unlines_nil, List.prefix_nil] at cut
    exact ⟨0, [], by simp [cut], by simp⟩
  | cons line ls ih =>
    have here : '\n' ∉ line := clean line (by simp)
    rw [unlines_cons] at cut
    rcases List.prefix_or_prefix_of_prefix cut (List.prefix_append (line ++ ['\n']) _) with
      inside | ⟨rest, whole⟩
    · rcases List.prefix_concat_iff.mp inside with all | part
      · exact ⟨1, [], by simp [all, unlines_cons], by simp⟩
      · exact ⟨0, t, by simp, fun member => here (part.subset member)⟩
    · rw [← whole] at cut
      have later := (List.prefix_append_right_inj _).mp cut
      obtain ⟨n, part, same, tail⟩ :=
        ih (fun l member => clean l (List.mem_cons_of_mem line member)) later
      exact ⟨n + 1, part, by simp [← whole, same, unlines_cons], tail⟩

theorem trim_append {c : Char} {p q : Text} (first : Plain c p) (last : Plain c q) (filled : p ≠ [])
    (filled' : q ≠ []) (front middle : Text) :
    ∃ g, trim (front ++ (p ++ middle ++ q)) = g ++ (p ++ middle ++ q) := by
  obtain ⟨a, p, rfl⟩ := List.exists_cons_of_ne_nil filled
  obtain ⟨q, b, rfl⟩ := (List.eq_nil_or_concat q).resolve_left filled'
  rw [List.concat_eq_append] at last ⊢
  have starts : isSpace a = false := (first a (by simp)).2
  have ends : isSpace b = false := (last b (by simp)).2
  have left : ∃ g, (front ++ (a :: p ++ middle ++ (q ++ [b]))).dropWhile isSpace =
      g ++ (a :: p ++ middle ++ (q ++ [b])) := by
    rw [List.dropWhile_append]
    split
    · exact ⟨[], List.dropWhile_cons_of_neg (by simp [starts])⟩
    · exact ⟨_, rfl⟩
  obtain ⟨g, left⟩ := left
  refine ⟨g, ?_⟩
  unfold trim
  rw [left, ← List.append_assoc, ← List.append_assoc, List.reverse_concat,
    List.dropWhile_cons_of_neg (by simp [ends]), ← List.reverse_concat, List.reverse_reverse]

section Joined
variable {α : Type} (sep : α) (a b a' b' : List α)

/-- The text that follows `a` and a separator belongs to the first part of the other pair
    up to a separator there. -/
def Shifts : Prop := ∃ w, a' = a ++ sep :: w ∧ b = w ++ sep :: b'

theorem joined_eq_iff : a ++ sep :: b = a' ++ sep :: b' ↔
    (a = a' ∧ b = b') ∨ Shifts sep a b a' b' ∨ Shifts sep a' b' a b := by
  constructor
  · intro same
    rcases List.append_eq_append_iff.mp same with ⟨w, first, rest⟩ | ⟨w, first, rest⟩
    · cases w with
      | nil =>
        rw [List.nil_append, List.cons.injEq] at rest
        exact Or.inl ⟨by rw [first, List.append_nil], rest.2⟩
      | cons x w =>
        rw [List.cons_append, List.cons.injEq] at rest
        exact Or.inr (Or.inl ⟨w, by rw [first, rest.1], rest.2⟩)
    · cases w with
      | nil =>
        rw [List.nil_append, List.cons.injEq] at rest
        exact Or.inl ⟨by rw [first, List.append_nil], rest.2.symm⟩
      | cons x w =>
        rw [List.cons_append, List.cons.injEq] at rest
        exact Or.inr (Or.inr ⟨w, by rw [first, rest.1], rest.2⟩)
  · rintro (⟨first, second⟩ | ⟨w, first, second⟩ | ⟨w, first, second⟩)
    · rw [first, second]
    · rw [first, second]
      simp
    · rw [first, second]
      simp

end Joined

end DelimitedText
