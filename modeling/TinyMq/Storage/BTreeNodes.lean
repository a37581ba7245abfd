import TinyMq.Storage.BTree
import TinyMq.Lib.Weaving

/-!
Single nodes of the index: what a sound node is, and what splits, merges and
rotations do to the two children they touch. A node is cut at the position they
work on, and its contents in order are the contents of the parts.
-/
namespace TinyMqBTreeNodes
open Weaving TinyMqBTree
variable {E C : Type}

def contents (inside : C → List E) (x : Node E C) : List E := weave x.keys (x.children.map inside)

/-- What `verify` asserts of every node, with nothing said of a minimum of keys;
    `good` is what holds of the children. -/
structure Sound (t : Nat) (leaf : Bool) (inside : C → List E) (good : C → Prop) (x : Node E C) :
    Prop where
  bound : x.keys.length ≤ 2 * t - 1
  arity : x.children.length = if leaf then 0 else x.keys.length + 1
  size : x.size = (contents inside x).length
  children : ∀ c ∈ x.children, good c

def Filled (t : Nat) (leaf : Bool) (inside : C → List E) (good : C → Prop) (x : Node E C) : Prop :=
  t - 1 ≤ x.keys.length ∧ Sound t leaf inside good x

theorem contents_window (inside : C → List E) {ks : List E} {cs : List C}
    (same : cs.length = ks.length) (ls : List E) (n : Nat) (c : C) (ds : List C) :
    contents inside ⟨ks ++ ls,n,cs ++ c :: ds⟩ =
      weave ks (cs.map inside) ++ inside c ++ trail ls (ds.map inside) := by
  have lengths : ks.length = (cs.map inside).length := by simp [same]
  rw [contents, List.map_append, weave_append lengths, List.map_cons, weave_cons,
    List.append_assoc]

theorem contents_pair (inside : C → List E) {ks : List E} {cs : List C}
    (same : cs.length = ks.length) (k : E) (ls : List E) (n : Nat) (c d : C) (ds : List C) :
    contents inside ⟨ks ++ k :: ls,n,cs ++ c :: d :: ds⟩ =
      weave ks (cs.map inside) ++ (inside c ++ k :: inside d) ++ trail ls (ds.map inside) := by
  rw [contents_window inside same, trail_cons, List.map_cons, weave_cons]
  simp

theorem keys_sublist_contents (inside : C → List E) (x : Node E C) :
    List.Sublist x.keys (contents inside x) :=
  keys_sublist x.keys (x.children.map inside)

section Cuts
variable {t : Nat} {inside : C → List E} {good : C → Prop}

theorem Sound.aligned {leaf : Bool} {ks ls : List E} {k : E} {n : Nat} {cs ds : List C}
    (sound : Sound t leaf inside good ⟨ks ++ k :: ls,n,cs ++ ds⟩)
    (cut : leaf = true ∨ cs.length = ks.length + 1) :
    cs.map inside = [] ∧ ds.map inside = [] ∨ (cs.map inside).length = ks.length + 1 := by
  rcases cut with isLeaf | inner
  · left
    have none := sound.arity
    rw [if_pos isLeaf] at none
    have empty := List.append_eq_nil_iff.mp (List.length_eq_zero_iff.mp none)
    rw [empty.1, empty.2]
    exact ⟨rfl, rfl⟩
  · right
    rw [List.length_map, inner]

theorem Sound.cut {x : Node E C} (sound : Sound t false inside good x) {i : Nat} {c : C}
    (here : x.children[i]? = some c) :
    ∃ ks ls cs ds, x = ⟨ks ++ ls,x.size,cs ++ c :: ds⟩ ∧ ks.length = i ∧ cs.length = ks.length ∧
      ds.length = ls.length := by
  obtain ⟨keys, size, children⟩ := x
  have arity : children.length = keys.length + 1 := sound.arity
  obtain ⟨inRange, _⟩ := List.getElem?_eq_some_iff.mp here
  obtain ⟨cs, d, ds, split, atI, found⟩ := window inRange
  have same : d = c := Option.some.inj (found.symm.trans here)
  subst same
  have le : i ≤ keys.length := by
    have inside' : i < children.length := inRange
    omega
  refine ⟨keys.take i, keys.drop i, cs, ds, ?_, List.length_take_of_le le, ?_, ?_⟩
  · rw [List.take_append_drop, ← split]
  · rw [atI, List.length_take_of_le le]
  · have lengths := congrArg List.length split
    simp only [List.length_append, List.length_cons] at lengths
    rw [List.length_drop]
    have total : children.length = cs.length + (ds.length + 1) := lengths
    omega

theorem Sound.cutPair {x : Node E C} (sound : Sound t false inside good x) {i : Nat}
    (inner : i < x.keys.length) :
    ∃ ks k ls cs c d ds, x = ⟨ks ++ k :: ls,x.size,cs ++ c :: d :: ds⟩ ∧ ks.length = i ∧
      cs.length = ks.length ∧ ds.length = ls.length := by
  have arity : x.children.length = x.keys.length + 1 := sound.arity
  have next : i < x.children.length := by omega
  obtain ⟨ks, ls, cs, ds, shape, atI, same, rest⟩ :=
    sound.cut (List.getElem?_eq_getElem next)
  have keys : x.keys = ks ++ ls := congrArg Node.keys shape
  have longer : 0 < ls.length := by
    rw [keys, List.length_append] at inner
    omega
  cases ls with
  | nil => exact absurd longer (Nat.lt_irrefl 0)
  | cons k ls =>
    cases ds with
    | nil => cases rest
    | cons d ds => exact ⟨ks, k, ls, cs, _, d, ds, shape, atI, same, by simpa using rest⟩

theorem Sound.parts {leaf : Bool} {ks : List E} {n : Nat} {cs : List C}
    (sound : Sound t leaf inside good ⟨ks,n,cs⟩) : n = (weave ks (cs.map inside)).length :=
  sound.size

theorem Sound.replacePair {ks ls : List E} {k k' : E} {n : Nat} {cs ds : List C} {c d c' d' : C}
    (sound : Sound t false inside good ⟨ks ++ k :: ls,n,cs ++ c :: d :: ds⟩)
    (same : cs.length = ks.length) (goodC : good c') (goodD : good d')
    (kept : inside c' ++ k' :: inside d' = inside c ++ k :: inside d) :
    Sound t false inside good ⟨ks ++ k' :: ls,n,cs ++ c' :: d' :: ds⟩ ∧
      contents inside ⟨ks ++ k' :: ls,n,cs ++ c' :: d' :: ds⟩ =
        contents inside ⟨ks ++ k :: ls,n,cs ++ c :: d :: ds⟩ := by
  have equal : contents inside ⟨ks ++ k' :: ls,n,cs ++ c' :: d' :: ds⟩ =
      contents inside ⟨ks ++ k :: ls,n,cs ++ c :: d :: ds⟩ := by
    rw [contents_pair inside same, contents_pair inside same, kept]
  refine ⟨?_, equal⟩
  constructor
  case bound => simpa using sound.bound
  case arity => simpa using sound.arity
  case size => rw [equal]; exact sound.size
  case children =>
    have all := sound.children
    simp only [List.mem_append, List.mem_cons] at all ⊢
    intro a member
    rcases member with before | rfl | rfl | after
    · exact all a (Or.inl before)
    · exact goodC
    · exact goodD
    · exact all a (Or.inr (Or.inr (Or.inr after)))

theorem Sound.mergePair {ks ls : List E} {k : E} {n : Nat} {cs ds : List C} {c d c' : C}
    (sound : Sound t false inside good ⟨ks ++ k :: ls,n,cs ++ c :: d :: ds⟩)
    (same : cs.length = ks.length) (goodC : good c')
    (kept : inside c' = inside c ++ k :: inside d) :
    Sound t false inside good ⟨ks ++ ls,n,cs ++ c' :: ds⟩ ∧
      contents inside ⟨ks ++ ls,n,cs ++ c' :: ds⟩ =
        contents inside ⟨ks ++ k :: ls,n,cs ++ c :: d :: ds⟩ := by
  have equal : contents inside ⟨ks ++ ls,n,cs ++ c' :: ds⟩ =
      contents inside ⟨ks ++ k :: ls,n,cs ++ c :: d :: ds⟩ := by
    rw [contents_pair inside same, contents_window inside same, kept]
  refine ⟨?_, equal⟩
  constructor
  case bound =>
    have bound := sound.bound
    simp only [List.length_append, List.length_cons] at bound ⊢
    omega
  case arity =>
    have arity := sound.arity
    simp only [List.length_append, List.length_cons, Bool.false_eq_true, if_false] at arity ⊢
    omega
  case size => rw [equal]; exact sound.size
  case children =>
    have all := sound.children
    simp only [List.mem_append, List.mem_cons] at all ⊢
    intro a member
    rcases member with before | rfl | after
    · exact all a (Or.inl before)
    · exact goodC
    · exact all a (Or.inr (Or.inr (Or.inr after)))

theorem Sound.splitPair {ks ls : List E} {k : E} {n : Nat} {cs ds : List C} {c c' d' : C}
    (sound : Sound t false inside good ⟨ks ++ ls,n,cs ++ c :: ds⟩)
    (room : (ks ++ ls).length < 2 * t - 1) (same : cs.length = ks.length)
    (goodC : good c') (goodD : good d') (kept : inside c = inside c' ++ k :: inside d') :
    Sound t false inside good ⟨ks ++ k :: ls,n,cs ++ c' :: d' :: ds⟩ ∧
      contents inside ⟨ks ++ k :: ls,n,cs ++ c' :: d' :: ds⟩ =
        contents inside ⟨ks ++ ls,n,cs ++ c :: ds⟩ := by
  have equal : contents inside ⟨ks ++ k :: ls,n,cs ++ c' :: d' :: ds⟩ =
      contents inside ⟨ks ++ ls,n,cs ++ c :: ds⟩ := by
    rw [contents_pair inside same, contents_window inside same, kept]
  refine ⟨?_, equal⟩
  constructor
  case bound =>
    simp only [List.length_append, List.length_cons] at room ⊢
    omega
  case arity =>
    have arity := sound.arity
    simp only [List.length_append, List.length_cons, Bool.false_eq_true, if_false] at arity ⊢
    omega
  case size => rw [equal]; exact sound.size
  case children =>
    have all := sound.children
    simp only [List.mem_append, List.mem_cons] at all ⊢
    intro a member
    rcases member with before | rfl | rfl | after
    · exact all a (Or.inl before)
    · exact goodC
    · exact goodD
    · exact all a (Or.inr (Or.inr after))

end Cuts

section Children
variable {t : Nat} {leaf : Bool} {inside : C → List E} {good : C → Prop} {sizeOf : C → Nat}

theorem sizes_sum (sized : ∀ c, good c → sizeOf c = (inside c).length) {cs : List C}
    (all : ∀ c ∈ cs, good c) : (cs.map sizeOf).sum = ((cs.map inside).map List.length).sum := by
  induction cs with
  | nil => rfl
  | cons c cs ih =>
    rw [List.map_cons, List.sum_cons, List.map_cons, List.map_cons, List.sum_cons,
      sized c (all c List.mem_cons_self), ih fun d member => all d (List.mem_cons_of_mem c member)]

theorem size_weave (sized : ∀ c, good c → sizeOf c = (inside c).length) (ks : List E)
    {cs : List C} (all : ∀ c ∈ cs, good c) :
    ks.length + (cs.map sizeOf).sum = (weave ks (cs.map inside)).length := by
  rw [length_weave, sizes_sum sized all]

theorem splitChild_window (two : 2 ≤ t) (sized : ∀ c, good c → sizeOf c = (inside c).length)
    {y : Node E C} (sound : Sound t leaf inside good y) (full : y.isFull t)
    {ks : List E} {cs : List (Node E C)} (same : cs.length = ks.length) (ls : List E)
    (ds : List (Node E C)) (n : Nat) :
    ∃ y₁ k y₂, splitChild t sizeOf ⟨ks ++ ls,n,cs ++ y :: ds⟩ ks.length =
        ⟨ks ++ k :: ls,n,cs ++ y₁ :: y₂ :: ds⟩ ∧
      Filled t leaf inside good y₁ ∧ Filled t leaf inside good y₂ ∧
      y₁.keys.length = t - 1 ∧ y₂.keys.length = t - 1 ∧
      contents inside y = contents inside y₁ ++ k :: contents inside y₂ := by
  obtain ⟨keys, size, children⟩ := y
  have many : keys.length = 2 * t - 1 := by simpa [Node.isFull] using full
  have middle : t - 1 < keys.length := by omega
  obtain ⟨before, k, after, split, atMiddle, found⟩ := window middle
  have rest : keys.drop t = after := by
    have cutAt : t = before.length + 1 := by omega
    rw [split, cutAt]
    simp
  have first : keys.take (t - 1) = before := by
    rw [split, ← atMiddle]
    simp
  have afterLength : after.length = t - 1 := by
    have total := congrArg List.length split
    simp only [List.length_append, List.length_cons] at total
    omega
  have arity : children.length = if leaf then 0 else keys.length + 1 := sound.arity
  have cutChildren : leaf = true ∨ (children.take t).length = before.length + 1 := by
    cases isLeaf : leaf with
    | true => exact Or.inl rfl
    | false =>
      right
      rw [isLeaf] at arity
      rw [List.length_take]
      simp only [Bool.false_eq_true, if_false] at arity
      omega
  have shape : (⟨keys,size,children⟩ : Node E C) =
      ⟨before ++ k :: after,size,children.take t ++ children.drop t⟩ := by
    rw [← split, List.take_append_drop]
  have joined : contents inside ⟨keys,size,children⟩ =
      weave before ((children.take t).map inside) ++
        k :: weave after ((children.drop t).map inside) := by
    rw [shape] at sound ⊢
    rw [contents, List.map_append]
    exact weave_join (sound.aligned cutChildren) k after
  have allRight : ∀ c ∈ children.drop t, good c := fun c member =>
    sound.children c (List.mem_of_mem_drop member)
  have allLeft : ∀ c ∈ children.take t, good c := fun c member =>
    sound.children c (List.mem_of_mem_take member)
  have rightSize := size_weave sized after allRight
  have whole : size = (contents inside ⟨keys,size,children⟩).length := sound.size
  refine ⟨⟨before,size - (after.length + ((children.drop t).map sizeOf).sum + 1),children.take t⟩,
    k, ⟨after,after.length + ((children.drop t).map sizeOf).sum,children.drop t⟩,
    ?_, ⟨?_, ?_⟩, ⟨?_, ?_⟩, atMiddle, afterLength, joined⟩
  · have position : (cs ++ (⟨keys,size,children⟩ : Node E C) :: ds)[ks.length]? =
        some ⟨keys,size,children⟩ := by
      rw [← same]
      exact get_window cs _ ds
    simp only [splitChild, position, found, rest, first]
    rw [insertIdx_window, ← same, set_window, insertIdx_next_window]
  · exact Nat.le_of_eq atMiddle.symm
  · constructor
    case bound => simp only; omega
    case arity =>
      rcases cutChildren with isLeaf | inner
      · rw [if_pos isLeaf] at arity ⊢
        simp [List.length_eq_zero_iff.mp arity]
      · cases isLeaf : leaf with
        | true =>
          rw [isLeaf, if_pos rfl] at arity
          simp [List.length_eq_zero_iff.mp arity]
        | false => simpa using inner
    case size =>
      simp only [contents]
      rw [joined, List.length_append, List.length_cons] at whole
      omega
    case children => exact allLeft
  · exact Nat.le_of_eq afterLength.symm
  · constructor
    case bound => simp only; omega
    case arity =>
      cases isLeaf : leaf with
      | true =>
        rw [isLeaf, if_pos rfl] at arity
        simp [List.length_eq_zero_iff.mp arity]
      | false =>
        rw [isLeaf] at arity
        simp only [Bool.false_eq_true, if_false] at arity
        simp only [List.length_drop, Bool.false_eq_true, if_false]
        omega
    case size => exact rightSize
    case children => exact allRight

theorem splitChild_root (two : 2 ≤ t) (sized : ∀ c, good c → sizeOf c = (inside c).length)
    {y : Node E C} (sound : Sound t leaf inside good y) (full : y.isFull t) :
    ∃ x, splitChild t sizeOf ⟨[],y.size,[y]⟩ 0 = x ∧
      Sound t false (contents inside) (Filled t leaf inside good) x ∧
      contents (contents inside) x = contents inside y ∧ x.keys.length = 1 := by
  have many : y.keys.length = 2 * t - 1 := by simpa [Node.isFull] using full
  have same : ([] : List (Node E C)).length = ([] : List E).length := rfl
  obtain ⟨y₁, k, y₂, split, filled₁, filled₂, _, _, parts⟩ :=
    splitChild_window two sized sound full same [] [] y.size
  have alone : contents (contents inside) ⟨[],y.size,[y]⟩ = contents inside y := by
    simp [contents]
  have above : Sound t false (contents inside) (Filled t leaf inside good) ⟨[],y.size,[y]⟩ := by
    constructor
    case bound => exact Nat.zero_le _
    case arity => rfl
    case size =>
      rw [alone]
      exact sound.size
    case children =>
      intro c member
      rw [List.mem_singleton.mp member]
      exact ⟨by omega, sound⟩
  have room : ([] ++ [] : List E).length < 2 * t - 1 := by
    simp only [List.append_nil, List.length_nil]
    omega
  obtain ⟨sound', equal⟩ := Sound.splitPair above room same filled₁ filled₂ parts
  exact ⟨⟨[k],y.size,[y₁, y₂]⟩, split, sound', equal.trans alone, rfl⟩

theorem mergeChild_window (sized : ∀ c, good c → sizeOf c = (inside c).length)
    {y s : Node E C} (left : Sound t leaf inside good y) (right : Sound t leaf inside good s)
    (few : y.keys.length + s.keys.length + 1 ≤ 2 * t - 1)
    {ks : List E} {cs : List (Node E C)} (same : cs.length = ks.length) (k : E) (ls : List E)
    (ds : List (Node E C)) (n : Nat) :
    ∃ y', mergeChild sizeOf ⟨ks ++ k :: ls,n,cs ++ y :: s :: ds⟩ ks.length =
        ⟨ks ++ ls,n,cs ++ y' :: ds⟩ ∧ Sound t leaf inside good y' ∧
      y'.keys.length = y.keys.length + s.keys.length + 1 ∧
      contents inside y' = contents inside y ++ k :: contents inside s := by
  obtain ⟨yKeys, ySize, yChildren⟩ := y
  obtain ⟨sKeys, sSize, sChildren⟩ := s
  have arityL : yChildren.length = if leaf then 0 else yKeys.length + 1 := left.arity
  have arityR : sChildren.length = if leaf then 0 else sKeys.length + 1 := right.arity
  have joined : weave (yKeys ++ k :: sKeys) ((yChildren ++ sChildren).map inside) =
      weave yKeys (yChildren.map inside) ++ k :: weave sKeys (sChildren.map inside) := by
    rw [List.map_append]
    apply weave_join
    cases isLeaf : leaf with
    | true =>
      left
      rw [isLeaf, if_pos rfl] at arityL arityR
      rw [List.length_eq_zero_iff.mp arityL, List.length_eq_zero_iff.mp arityR]
      exact ⟨rfl, rfl⟩
    | false =>
      right
      rw [isLeaf] at arityL
      simpa using arityL
  have leftSize : ySize = (weave yKeys (yChildren.map inside)).length := left.size
  have rightSize := size_weave sized sKeys right.children
  refine ⟨⟨yKeys ++ k :: sKeys,ySize + (sKeys.length + (sChildren.map sizeOf).sum + 1),
    yChildren ++ sChildren⟩, ?_, ?_, ?_, joined⟩
  · have key : (ks ++ k :: ls)[ks.length]? = some k := get_window ks k ls
    have position : (cs ++ (⟨yKeys,ySize,yChildren⟩ : Node E C) :: ⟨sKeys,sSize,sChildren⟩ :: ds)[
        ks.length]? = some ⟨yKeys,ySize,yChildren⟩ := by
      rw [← same]
      exact get_window cs _ _
    have next : (cs ++ (⟨yKeys,ySize,yChildren⟩ : Node E C) :: ⟨sKeys,sSize,sChildren⟩ :: ds)[
        ks.length + 1]? = some ⟨sKeys,sSize,sChildren⟩ := by
      rw [← same]
      exact get_next_window cs _ _ ds
    simp only [mergeChild, key, position, next]
    rw [eraseIdx_window, ← same, set_window, eraseIdx_next_window]
  · constructor
    case bound =>
      simp only [List.length_append, List.length_cons] at few ⊢
      omega
    case arity =>
      simp only [List.length_append, List.length_cons]
      split at arityL
      · rw [if_pos (by assumption)] at arityR ⊢
        omega
      · rw [if_neg (by assumption)] at arityR ⊢
        omega
    case size =>
      simp only [contents, joined, List.length_append, List.length_cons]
      have rightLength : (sKeys.length + (sChildren.map sizeOf).sum) =
          (weave sKeys (sChildren.map inside)).length := rightSize
      omega
    case children =>
      intro c member
      rcases List.mem_append.mp member with inLeft | inRight
      · exact left.children c inLeft
      · exact right.children c inRight
  · simp only [List.length_append, List.length_cons]
    omega

/- What moves when a key goes around: the first child of the right node follows
   the key of the parent to the left one. -/
theorem rotated_left (inside : C → List E) {yKeys sKeys : List E} {yChildren sChildren : List C}
    (k first : E)
    (leftArity : yChildren.length = if leaf then 0 else yKeys.length + 1)
    (rightArity : sChildren.length = if leaf then 0 else sKeys.length + 2) :
    weave (yKeys ++ [k]) ((yChildren ++ sChildren.head?.toList).map inside) ++
        first :: weave sKeys (sChildren.tail.map inside) =
      weave yKeys (yChildren.map inside) ++
        k :: weave (first :: sKeys) (sChildren.map inside) := by
  cases isLeaf : leaf with
  | true =>
    rw [isLeaf, if_pos rfl] at leftArity rightArity
    rw [List.length_eq_zero_iff.mp leftArity, List.length_eq_zero_iff.mp rightArity]
    simp
  | false =>
    rw [isLeaf] at leftArity rightArity
    cases sChildren with
    | nil => cases rightArity
    | cons c rest =>
      have aligned : (yChildren.map inside).length = yKeys.length + 1 := by
        simpa using leftArity
      rw [List.map_append, weave_join (Or.inr aligned)]
      simp

theorem rotated_right (inside : C → List E) {yKeys sKeys : List E} {yChildren sChildren : List C}
    (k last : E)
    (leftArity : sChildren.length = if leaf then 0 else sKeys.length + 2)
    (rightArity : yChildren.length = if leaf then 0 else yKeys.length + 1) :
    weave sKeys (sChildren.dropLast.map inside) ++
        last :: weave (k :: yKeys) ((sChildren.getLast?.toList ++ yChildren).map inside) =
      weave (sKeys ++ [last]) (sChildren.map inside) ++
        k :: weave yKeys (yChildren.map inside) := by
  cases isLeaf : leaf with
  | true =>
    rw [isLeaf, if_pos rfl] at leftArity rightArity
    rw [List.length_eq_zero_iff.mp leftArity, List.length_eq_zero_iff.mp rightArity]
    simp
  | false =>
    rw [isLeaf] at leftArity rightArity
    rcases List.eq_nil_or_concat sChildren with none | ⟨before, c, shape⟩
    · rw [none] at leftArity
      cases leftArity
    · rw [List.concat_eq_append] at shape
      rw [shape] at leftArity
      have aligned : (before.map inside).length = sKeys.length + 1 := by
        simpa using leftArity
      have joined := @weave_join _ _ _ [inside c] (Or.inr aligned) last []
      have whole : (before ++ [c]).map inside = before.map inside ++ [inside c] := by simp
      rw [shape, whole, joined]
      simp

theorem leftRotate_window (two : 2 ≤ t) (sized : ∀ c, good c → sizeOf c = (inside c).length)
    {y s : Node E C} (left : Sound t leaf inside good y) (right : Sound t leaf inside good s)
    (minimal : y.keys.length = t - 1) (spare : t ≤ s.keys.length)
    {ks : List E} {cs : List (Node E C)} (same : cs.length = ks.length) (k : E) (ls : List E)
    (ds : List (Node E C)) (n : Nat) :
    ∃ y' k' s', leftRotate sizeOf ⟨ks ++ k :: ls,n,cs ++ y :: s :: ds⟩ ks.length =
        ⟨ks ++ k' :: ls,n,cs ++ y' :: s' :: ds⟩ ∧
      Filled t leaf inside good y' ∧ Filled t leaf inside good s' ∧ t ≤ y'.keys.length ∧
      k' ∈ contents inside s ∧
      contents inside y' ++ k' :: contents inside s' =
        contents inside y ++ k :: contents inside s := by
  obtain ⟨yKeys, ySize, yChildren⟩ := y
  obtain ⟨sKeys, sSize, sChildren⟩ := s
  have arityL : yChildren.length = if leaf then 0 else yKeys.length + 1 := left.arity
  have arityR : sChildren.length = if leaf then 0 else sKeys.length + 1 := right.arity
  have boundR : sKeys.length ≤ 2 * t - 1 := right.bound
  have minimalL : yKeys.length = t - 1 := minimal
  have spareR : t ≤ sKeys.length := spare
  cases sKeys with
  | nil =>
    rw [List.length_nil] at spareR
    omega
  | cons first rest =>
    simp only [List.length_cons] at arityR boundR spareR
    have joined := rotated_left inside k first arityL arityR
    have leftSize : ySize = (weave yKeys (yChildren.map inside)).length := left.size
    have rightSize : sSize = (weave (first :: rest) (sChildren.map inside)).length := right.size
    have allTail : ∀ c ∈ sChildren.tail, good c := fun c member =>
      right.children c (List.mem_of_mem_tail member)
    have tailSize := size_weave sized rest allTail
    have moved : sSize = 1 + (sChildren.head?.toList.map sizeOf).sum +
        (rest.length + (sChildren.tail.map sizeOf).sum) := by
      rw [rightSize, ← size_weave sized (first :: rest) right.children, List.length_cons]
      cases sChildren with
      | nil =>
        simp
        omega
      | cons c children =>
        simp
        omega
    refine ⟨⟨yKeys ++ [k],ySize + 1 + (sChildren.head?.toList.map sizeOf).sum,
        yChildren ++ sChildren.head?.toList⟩, first,
      ⟨rest,sSize - 1 - (sChildren.head?.toList.map sizeOf).sum,sChildren.tail⟩,
      ?_, ⟨?_, ?_⟩, ⟨?_, ?_⟩, ?_, ?_, joined⟩
    · have key : (ks ++ k :: ls)[ks.length]? = some k := get_window ks k ls
      have position : (cs ++ (⟨yKeys,ySize,yChildren⟩ : Node E C) ::
          ⟨first :: rest,sSize,sChildren⟩ :: ds)[ks.length]? =
            some ⟨yKeys,ySize,yChildren⟩ := by
        rw [← same]
        exact get_window cs _ _
      have next : (cs ++ (⟨yKeys,ySize,yChildren⟩ : Node E C) ::
          ⟨first :: rest,sSize,sChildren⟩ :: ds)[ks.length + 1]? =
            some ⟨first :: rest,sSize,sChildren⟩ := by
        rw [← same]
        exact get_next_window cs _ _ ds
      simp only [leftRotate, key, position, next]
      rw [set_window, ← same, set_window, set_next_window]
    · simp only [List.length_append, List.length_singleton]
      omega
    · constructor
      case bound =>
        simp only [List.length_append, List.length_singleton]
        omega
      case arity =>
        cases isLeaf : leaf with
        | true =>
          rw [isLeaf, if_pos rfl] at arityL arityR
          rw [List.length_eq_zero_iff.mp arityL, List.length_eq_zero_iff.mp arityR]
          rfl
        | false =>
          rw [isLeaf] at arityL arityR
          cases sChildren with
          | nil => cases arityR
          | cons c children =>
            simp only [Bool.false_eq_true, if_false] at arityL
            simp [arityL]
      case size =>
        have lengths := congrArg List.length joined
        simp only [List.length_append, List.length_cons] at lengths
        simp only [contents]
        omega
      case children =>
        intro c member
        rcases List.mem_append.mp member with inLeft | moved'
        · exact left.children c inLeft
        · exact right.children c (List.mem_of_mem_head? (Option.mem_toList.mp moved'))
    · simp only
      omega
    · constructor
      case bound =>
        simp only
        omega
      case arity =>
        rw [List.length_tail, arityR]
        split <;> simp
      case size =>
        simp only [contents]
        omega
      case children => exact allTail
    · simp only [List.length_append, List.length_singleton]
      omega
    · exact (keys_sublist_contents inside _).subset List.mem_cons_self

theorem rightRotate_window (two : 2 ≤ t) (sized : ∀ c, good c → sizeOf c = (inside c).length)
    {s y : Node E C} (left : Sound t leaf inside good s) (right : Sound t leaf inside good y)
    (spare : t ≤ s.keys.length) (minimal : y.keys.length = t - 1)
    {ks : List E} {cs : List (Node E C)} (same : cs.length = ks.length) (k : E) (ls : List E)
    (ds : List (Node E C)) (n : Nat) :
    ∃ s' k' y', rightRotate sizeOf ⟨ks ++ k :: ls,n,cs ++ s :: y :: ds⟩ ks.length =
        ⟨ks ++ k' :: ls,n,cs ++ s' :: y' :: ds⟩ ∧
      Filled t leaf inside good s' ∧ Filled t leaf inside good y' ∧ t ≤ y'.keys.length ∧
      k' ∈ contents inside s ∧
      contents inside s' ++ k' :: contents inside y' =
        contents inside s ++ k :: contents inside y := by
  obtain ⟨yKeys, ySize, yChildren⟩ := y
  obtain ⟨sKeys, sSize, sChildren⟩ := s
  have arityR : yChildren.length = if leaf then 0 else yKeys.length + 1 := right.arity
  have arityL : sChildren.length = if leaf then 0 else sKeys.length + 1 := left.arity
  have boundL : sKeys.length ≤ 2 * t - 1 := left.bound
  have minimalR : yKeys.length = t - 1 := minimal
  have spareL : t ≤ sKeys.length := spare
  rcases List.eq_nil_or_concat sKeys with none | ⟨rest, last, shape⟩
  · rw [none, List.length_nil] at spareL
    omega
  · rw [List.concat_eq_append] at shape
    subst shape
    simp only [List.length_append, List.length_singleton] at arityL boundL spareL
    have joined := rotated_right inside k last arityL arityR
    have rightSize : ySize = (weave yKeys (yChildren.map inside)).length := right.size
    have leftSize : sSize = (weave (rest ++ [last]) (sChildren.map inside)).length := left.size
    have allInit : ∀ c ∈ sChildren.dropLast, good c := fun c member =>
      left.children c (List.dropLast_subset sChildren member)
    have initSize := size_weave sized rest allInit
    have moved : sSize = 1 + (sChildren.getLast?.toList.map sizeOf).sum +
        (rest.length + (sChildren.dropLast.map sizeOf).sum) := by
      rw [leftSize, ← size_weave sized (rest ++ [last]) left.children, List.length_append,
        List.length_singleton]
      rcases List.eq_nil_or_concat sChildren with noChild | ⟨before, c, ends⟩
      · rw [noChild]
        simp
        omega
      · rw [ends, List.concat_eq_append]
        simp
        omega
    refine ⟨⟨rest,sSize - 1 - (sChildren.getLast?.toList.map sizeOf).sum,sChildren.dropLast⟩, last,
      ⟨k :: yKeys,ySize + 1 + (sChildren.getLast?.toList.map sizeOf).sum,
        sChildren.getLast?.toList ++ yChildren⟩,
      ?_, ⟨?_, ?_⟩, ⟨?_, ?_⟩, ?_, ?_, joined⟩
    · have key : (ks ++ k :: ls)[ks.length]? = some k := get_window ks k ls
      have position : (cs ++ (⟨rest ++ [last],sSize,sChildren⟩ : Node E C) ::
          ⟨yKeys,ySize,yChildren⟩ :: ds)[ks.length]? =
            some ⟨rest ++ [last],sSize,sChildren⟩ := by
        rw [← same]
        exact get_window cs _ _
      have next : (cs ++ (⟨rest ++ [last],sSize,sChildren⟩ : Node E C) ::
          ⟨yKeys,ySize,yChildren⟩ :: ds)[ks.length + 1]? = some ⟨yKeys,ySize,yChildren⟩ := by
        rw [← same]
        exact get_next_window cs _ _ ds
      simp only [rightRotate, key, position, next, List.getLast?_concat, List.dropLast_concat]
      rw [set_window, ← same, set_window, set_next_window]
    · simp only
      omega
    · constructor
      case bound =>
        simp only
        omega
      case arity =>
        rw [List.length_dropLast, arityL]
        split <;> simp
      case size =>
        simp only [contents]
        omega
      case children => exact allInit
    · simp only [List.length_cons]
      omega
    · constructor
      case bound =>
        simp only [List.length_cons]
        omega
      case arity =>
        cases isLeaf : leaf with
        | true =>
          rw [isLeaf, if_pos rfl] at arityL arityR
          rw [List.length_eq_zero_iff.mp arityL, List.length_eq_zero_iff.mp arityR]
          rfl
        | false =>
          rw [isLeaf] at arityL arityR
          rcases List.eq_nil_or_concat sChildren with noChild | ⟨before, c, ends⟩
          · rw [noChild] at arityL
            cases arityL
          · rw [ends, List.concat_eq_append]
            simp only [Bool.false_eq_true, if_false] at arityR
            simp [arityR]
      case size =>
        have lengths := congrArg List.length joined
        simp only [List.length_append, List.length_cons] at lengths
        simp only [contents]
        omega
      case children =>
        intro c member
        rcases List.mem_append.mp member with moved' | inRight
        · exact left.children c (List.mem_of_mem_getLast? (Option.mem_toList.mp moved'))
        · exact right.children c inRight
    · simp only [List.length_cons]
      omega
    · exact (keys_sublist_contents inside _).subset (by simp)

end Children

end TinyMqBTreeNodes
