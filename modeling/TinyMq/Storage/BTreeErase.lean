import TinyMq.Storage.BTreeSteps

/-!
`erase` at an inner node. Without the key there, a minimal child is filled up by
a rotation or a merge, and the key stays on its side of every key that moves.
With the key there, it changes places with a neighbour from a child that can
spare one, which leaves that child in order but not the node; or it goes down
into the merged children.
-/
namespace TinyMqBTreeErase
open AssocLists SortedMaps Weaving TinyMqBTree TinyMqBTreeNodes TinyMqBTreeSteps
variable {K V C : Type} {t : Nat} {leaf : Bool} {inside : C → List (K × V)} {good : C → Prop}
  {sizeOf : C → Nat}

theorem canTakeKey_iff {x : Node (K × V) C} (two : 2 ≤ t) :
    x.canTakeKey t = true ↔ t ≤ x.keys.length := by
  simp only [Node.canTakeKey, gt_iff_lt, decide_eq_true_eq]
  omega

theorem hasMinimalKeys_iff {x : Node (K × V) C} :
    x.hasMinimalKeys t = true ↔ x.keys.length = t - 1 := by
  simp [Node.hasMinimalKeys]

section Swapping

/-- `swap` puts a pair in the place of the last one of a child and gives that one. -/
def SwapsLast (t : Nat) (leaf : Bool) (inside : C → List (K × V)) (good : C → Prop)
    (swap : Node (K × V) C → K × V → Node (K × V) C × (K × V)) : Prop :=
  ∀ y e, Filled t leaf inside good y → ∃ l p y', swap y e = (y', p) ∧
    contents inside y = l ++ [p] ∧ contents inside y' = l ++ [e] ∧
    Filled t leaf inside good y' ∧ y'.keys.length = y.keys.length

def SwapsFirst (t : Nat) (leaf : Bool) (inside : C → List (K × V)) (good : C → Prop)
    (swap : Node (K × V) C → K × V → Node (K × V) C × (K × V)) : Prop :=
  ∀ y e, Filled t leaf inside good y → ∃ p r y', swap y e = (y', p) ∧
    contents inside y = p :: r ∧ contents inside y' = e :: r ∧
    Filled t leaf inside good y' ∧ y'.keys.length = y.keys.length

theorem swapLastChild_swaps {swap : Node (K × V) C → K × V → Node (K × V) C × (K × V)}
    (swaps : SwapsLast t leaf inside good swap) :
    SwapsLast t false (contents inside) (Filled t leaf inside good) (swapLastChild swap) := by
  intro y e filled
  obtain ⟨keys, size, children⟩ := y
  have arity : children.length = keys.length + 1 := filled.2.arity
  rcases List.eq_nil_or_concat children with empty | ⟨before, c, shape⟩
  · rw [empty] at arity
    cases arity
  · rw [List.concat_eq_append] at shape
    subst shape
    obtain ⟨l, p, c', swapped, whole, whole', filledC', _⟩ :=
      swaps c e (filled.2.children c (by simp))
    have same : before.length = keys.length := by simpa using arity
    have parts : ∀ d n, contents (contents inside) ⟨keys,n,before ++ [d]⟩ =
        weave keys (before.map (contents inside)) ++ contents inside d := by
      intro d n
      have cut := contents_window (contents inside) same [] n d []
      simpa using cut
    refine ⟨weave keys (before.map (contents inside)) ++ l, p, ⟨keys,size,before ++ [c']⟩,
      ?_, ?_, ?_, ⟨filled.1, ?_⟩, rfl⟩
    · simp only [swapLastChild, List.getLast?_concat, List.dropLast_concat, swapped]
    · rw [parts, whole, List.append_assoc]
    · rw [parts, whole', List.append_assoc]
    · constructor
      case bound => exact filled.2.bound
      case arity => simpa using arity
      case size =>
        have size := filled.2.size
        rw [parts, whole] at size
        rw [parts, whole']
        simpa using size
      case children =>
        intro d member
        rcases List.mem_append.mp member with old | new
        · exact filled.2.children d (List.mem_append_left _ old)
        · rw [List.mem_singleton.mp new]
          exact filledC'

theorem swapFirstChild_swaps {swap : Node (K × V) C → K × V → Node (K × V) C × (K × V)}
    (swaps : SwapsFirst t leaf inside good swap) :
    SwapsFirst t false (contents inside) (Filled t leaf inside good) (swapFirstChild swap) := by
  intro y e filled
  obtain ⟨keys, size, children⟩ := y
  have arity : children.length = keys.length + 1 := filled.2.arity
  cases children with
  | nil => cases arity
  | cons c after =>
    obtain ⟨p, r, c', swapped, whole, whole', filledC', _⟩ :=
      swaps c e (filled.2.children c List.mem_cons_self)
    have parts : ∀ d n, contents (contents inside) ⟨keys,n,d :: after⟩ =
        contents inside d ++ trail keys (after.map (contents inside)) := by
      intro d n
      rw [contents, List.map_cons, weave_cons]
    refine ⟨p, r ++ trail keys (after.map (contents inside)), ⟨keys,size,c' :: after⟩,
      ?_, ?_, ?_, ⟨filled.1, ?_⟩, rfl⟩
    · simp only [swapFirstChild, swapped]
    · rw [parts, whole, List.cons_append]
    · rw [parts, whole', List.cons_append]
    · constructor
      case bound => exact filled.2.bound
      case arity => exact arity
      case size =>
        have size := filled.2.size
        rw [parts, whole] at size
        rw [parts, whole']
        simpa using size
      case children =>
        intro d member
        rcases List.mem_cons.mp member with new | old
        · rw [new]
          exact filledC'
        · exact filled.2.children d (List.mem_cons_of_mem c old)

end Swapping

variable [LinearOrder K] {key : K}

theorem around_key {x : Node (K × V) (Node (K × V) C)}
    (sorted : Ascending (contents (contents inside) x)) {ks ls : Assoc K V} {k : K × V}
    (shape : x.keys = ks ++ k :: ls) : Below k.1 ks ∧ Above k.1 ls := by
  have keys : Ascending (ks ++ k :: ls) := by
    rw [← shape]
    exact List.Pairwise.sublist (keys_sublist_contents _ x) sorted
  exact ⟨below_of_ascending keys, above_of_ascending keys⟩

section Filling
variable (two : 2 ≤ t) (sized : ∀ c, good c → sizeOf c = (inside c).length)
include two sized

theorem leftRotate_prepared {ks ls : Assoc K V} {k : K × V} {n : Nat}
    {cs ds : List (Node (K × V) C)} {y s : Node (K × V) C}
    (sound : Sound t false (contents inside) (Filled t leaf inside good)
      ⟨ks ++ k :: ls,n,cs ++ y :: s :: ds⟩)
    (sorted : Ascending (contents (contents inside) ⟨ks ++ k :: ls,n,cs ++ y :: s :: ds⟩))
    (same : cs.length = ks.length) (minimal : y.keys.length = t - 1) (spare : t ≤ s.keys.length)
    (route : Route key (⟨ks ++ k :: ls,n,cs ++ y :: s :: ds⟩ : Node (K × V) (Node (K × V) C))
      ks.length) :
    Prepared t leaf inside good key ⟨ks ++ k :: ls,n,cs ++ y :: s :: ds⟩
      (leftRotate sizeOf ⟨ks ++ k :: ls,n,cs ++ y :: s :: ds⟩ ks.length, ks.length) := by
  have left : Filled t leaf inside good y := sound.children y (by simp)
  have right : Filled t leaf inside good s := sound.children s (by simp)
  obtain ⟨y', k', s', rotated, filledY, filledS, room, moved, kept⟩ :=
    leftRotate_window two sized left.2 right.2 minimal spare same k ls ds n
  obtain ⟨sound', equal⟩ := sound.replacePair same filledY filledS kept
  have higher : key < k.1 := route.2 k (get_window ks k ls)
  have further : k.1 < k'.1 := by
    rw [contents_pair _ same] at sorted
    exact above_of_ascending (ascending_parts sorted) k' moved
  have here : (cs ++ y' :: s' :: ds)[ks.length]? = some y' := by
    rw [← same]
    exact get_window cs y' _
  rw [rotated]
  apply prepared_route sound' (by simp) sorted equal here room
  constructor
  · simpa using route.1
  · intro e member
    rw [get_window ks k' ls] at member
    rw [← Option.some.inj member]
    exact higher.trans further

theorem rightRotate_prepared {ks ls : Assoc K V} {k : K × V} {n : Nat}
    {cs ds : List (Node (K × V) C)} {s y : Node (K × V) C}
    (sound : Sound t false (contents inside) (Filled t leaf inside good)
      ⟨ks ++ k :: ls,n,cs ++ s :: y :: ds⟩)
    (sorted : Ascending (contents (contents inside) ⟨ks ++ k :: ls,n,cs ++ s :: y :: ds⟩))
    (same : cs.length = ks.length) (spare : t ≤ s.keys.length) (minimal : y.keys.length = t - 1)
    (route : Route key (⟨ks ++ k :: ls,n,cs ++ s :: y :: ds⟩ : Node (K × V) (Node (K × V) C))
      (ks.length + 1)) :
    Prepared t leaf inside good key ⟨ks ++ k :: ls,n,cs ++ s :: y :: ds⟩
      (rightRotate sizeOf ⟨ks ++ k :: ls,n,cs ++ s :: y :: ds⟩ ks.length, ks.length + 1) := by
  have left : Filled t leaf inside good s := sound.children s (by simp)
  have right : Filled t leaf inside good y := sound.children y (by simp)
  obtain ⟨s', k', y', rotated, filledS, filledY, room, moved, kept⟩ :=
    rightRotate_window two sized left.2 right.2 spare minimal same k ls ds n
  obtain ⟨sound', equal⟩ := sound.replacePair same filledS filledY kept
  have upTo : ∀ e : K × V, (ks ++ e :: ls).take (ks.length + 1) = ks ++ [e] := by
    intro e
    rw [List.take_append]
    simp
  have behind : ∀ e : K × V, (ks ++ e :: ls)[ks.length + 1]? = ls.head? := by
    intro e
    rw [List.getElem?_append_right (Nat.le_succ _)]
    simp [List.head?_eq_getElem?]
  obtain ⟨lower, higher⟩ := route
  simp only [upTo] at lower
  simp only [behind] at higher
  have closer : k'.1 < k.1 := by
    rw [contents_pair _ same] at sorted
    exact below_of_ascending (ascending_parts sorted) k' moved
  have here : (cs ++ s' :: y' :: ds)[ks.length + 1]? = some y' := by
    rw [← same]
    exact get_next_window cs s' y' ds
  rw [rotated]
  apply prepared_route sound' (by simp) sorted equal here room
  constructor
  · simp only [upTo]
    intro e member
    rcases List.mem_append.mp member with inKs | isNew
    · exact lower e (List.mem_append_left _ inKs)
    · rw [List.mem_singleton.mp isNew]
      exact closer.trans (lower k (by simp))
  · simp only [behind]
    exact higher

theorem mergeChild_prepared {ks ls : Assoc K V} {k : K × V} {n : Nat}
    {cs ds : List (Node (K × V) C)} {y s : Node (K × V) C}
    (sound : Sound t false (contents inside) (Filled t leaf inside good)
      ⟨ks ++ k :: ls,n,cs ++ y :: s :: ds⟩)
    (sorted : Ascending (contents (contents inside) ⟨ks ++ k :: ls,n,cs ++ y :: s :: ds⟩))
    (same : cs.length = ks.length) (fewY : y.keys.length ≤ t - 1) (fewS : s.keys.length ≤ t - 1)
    (rest : ds.length = ls.length) (below : Below key ks) (above : ∀ e ∈ ls.head?, key < e.1) :
    Prepared t leaf inside good key ⟨ks ++ k :: ls,n,cs ++ y :: s :: ds⟩
      (mergeChild sizeOf ⟨ks ++ k :: ls,n,cs ++ y :: s :: ds⟩ ks.length, ks.length) := by
  have left : Filled t leaf inside good y := sound.children y (by simp)
  have right : Filled t leaf inside good s := sound.children s (by simp)
  obtain ⟨y', merged, soundY, length, kept⟩ :=
    mergeChild_window sized left.2 right.2 (by omega) same k ls ds n
  have enoughY := left.1
  have enoughS := right.1
  obtain ⟨sound', equal⟩ := sound.mergePair same ⟨by omega, soundY⟩ kept
  have here : (cs ++ y' :: ds)[ks.length]? = some y' := by
    rw [← same]
    exact get_window cs y' _
  have parts := sorted
  rw [contents_pair _ same] at parts
  have sortedParts := ascending_append.mp parts
  have sortedLeft := (ascending_append.mp sortedParts.1).1
  rw [merged]
  have whole := contents_window (contents inside) same ls n y' ds
  apply prepared_within sound' (by simp; omega) sorted equal here (by omega)
    (below_weave (by simp [same]) sortedLeft below)
    (above_trail (by simp [rest]) sortedParts.2.1 above) whole
  intro c' m
  simp only
  rw [← same, set_window]
  exact contents_window (contents inside) same ls m c' ds

theorem fixChild_prepared {x : Node (K × V) (Node (K × V) C)}
    (sound : Sound t false (contents inside) (Filled t leaf inside good) x)
    (sorted : Ascending (contents (contents inside) x)) (nonempty : 0 < x.keys.length) {i : Nat}
    (inRange : i < x.children.length) (route : Route key x i) :
    Prepared t leaf inside good key x (fixChild t sizeOf x i) := by
  have arity : x.children.length = x.keys.length + 1 := sound.arity
  have here := List.getElem?_eq_getElem inRange
  generalize x.children[i] = y at here
  have filled : Filled t leaf inside good y := sound.children y (List.mem_of_getElem? here)
  simp only [fixChild, here, Option.any_some]
  cases isMinimal : y.hasMinimalKeys t with
  | false =>
    have notMinimal : ¬ y.keys.length = t - 1 := by
      intro equal
      rw [hasMinimalKeys_iff.mpr equal] at isMinimal
      cases isMinimal
    have enough := filled.1
    exact prepared_route sound (Nat.le_succ _) sorted rfl here (by omega) route
  | true =>
    have minimal := hasMinimalKeys_iff.mp isMinimal
    simp only [if_true]
    -- the four ways to fill the child up, in the order of the source
    by_cases fromRight : x.children[i + 1]?.any (Node.canTakeKey t) = true
    · rw [if_pos fromRight]
      have next : i < x.keys.length := by
        cases found : x.children[i + 1]? with
        | none =>
          rw [found] at fromRight
          cases fromRight
        | some s =>
          obtain ⟨bounded, _⟩ := List.getElem?_eq_some_iff.mp found
          omega
      obtain ⟨ks, k, ls, cs, c, s, ds, shape, atI, same, rest⟩ := sound.cutPair next
      generalize x.size = n at shape
      subst shape
      subst atI
      have isY : c = y := by
        rw [← same] at here
        exact Option.some.inj ((get_window cs c _).symm.trans here)
      have isS : (cs ++ c :: s :: ds)[ks.length + 1]? = some s := by
        rw [← same]
        exact get_next_window cs c s ds
      simp only [isS, Option.any_some] at fromRight
      rw [isY] at sound sorted route ⊢
      exact leftRotate_prepared two sized sound sorted same minimal
        ((canTakeKey_iff two).mp fromRight) route
    · rw [if_neg fromRight]
      by_cases fromLeft : 0 < i ∧ x.children[i - 1]?.any (Node.canTakeKey t) = true
      · rw [if_pos fromLeft]
        obtain ⟨positive, canTake⟩ := fromLeft
        have before : i - 1 < x.keys.length := by omega
        obtain ⟨ks, k, ls, cs, s, c, ds, shape, atI, same, rest⟩ := sound.cutPair before
        generalize x.size = n at shape
        subst shape
        have position : i = ks.length + 1 := by omega
        subst position
        have isY : c = y := by
          rw [← same] at here
          exact Option.some.inj ((get_next_window cs s c ds).symm.trans here)
        have isS : (cs ++ s :: c :: ds)[ks.length + 1 - 1]? = some s := by
          rw [Nat.add_sub_cancel, ← same]
          exact get_window cs s _
        simp only [isS, Option.any_some] at canTake
        rw [isY] at sound sorted route ⊢
        exact rightRotate_prepared two sized sound sorted same ((canTakeKey_iff two).mp canTake)
          minimal route
      · rw [if_neg fromLeft]
        by_cases more : i + 1 < x.children.length
        · rw [if_pos more]
          obtain ⟨ks, k, ls, cs, c, s, ds, shape, atI, same, rest⟩ :=
            sound.cutPair (i := i) (by omega)
          generalize x.size = n at shape
          subst shape
          subst atI
          have isY : c = y := by
            rw [← same] at here
            exact Option.some.inj ((get_window cs c _).symm.trans here)
          have isS : (cs ++ c :: s :: ds)[ks.length + 1]? = some s := by
            rw [← same]
            exact get_next_window cs c s ds
          have few : s.keys.length ≤ t - 1 := by
            simp only [isS, Option.any_some] at fromRight
            rw [canTakeKey_iff two] at fromRight
            omega
          rw [isY] at sound sorted route ⊢
          have higher : key < k.1 := route.2 k (get_window ks k ls)
          have aroundK := around_key sorted (rfl : _ = ks ++ k :: ls)
          refine mergeChild_prepared two sized sound sorted same (Nat.le_of_eq minimal) few rest
            ?_ ?_
          · simpa using route.1
          · intro e member
            exact higher.trans (aroundK.2 e (List.mem_of_mem_head? member))
        · rw [if_neg more]
          have positive : 0 < i := by omega
          rw [if_pos positive]
          obtain ⟨ks, k, ls, cs, s, c, ds, shape, atI, same, rest⟩ :=
            sound.cutPair (i := i - 1) (by omega)
          generalize x.size = n at shape
          subst shape
          have position : i = ks.length + 1 := by omega
          subst position
          have isY : c = y := by
            rw [← same] at here
            exact Option.some.inj ((get_next_window cs s c ds).symm.trans here)
          have isS : (cs ++ s :: c :: ds)[ks.length + 1 - 1]? = some s := by
            rw [Nat.add_sub_cancel, ← same]
            exact get_window cs s _
          have few : s.keys.length ≤ t - 1 := by
            have notLeft : ¬ s.canTakeKey t = true := by
              intro canTake
              exact fromLeft ⟨positive, by simp only [isS, Option.any_some]; exact canTake⟩
            rw [canTakeKey_iff two] at notLeft
            omega
          rw [isY] at sound sorted route ⊢
          have noMore : ls = [] := by
            simp only [List.length_append, List.length_cons] at more
            apply List.length_eq_zero_iff.mp
            omega
          refine mergeChild_prepared two sized sound sorted same few (Nat.le_of_eq minimal) rest
            ?_ ?_
          · intro e member
            exact route.1 e (by
              rw [List.take_append, List.take_of_length_le (Nat.le_succ _)]
              exact List.mem_append_left _ member)
          · rw [noMore]
            intro e member
            cases member

end Filling

section Pulling

variable {pred succ : Node (K × V) C → K × V → Node (K × V) C × (K × V)}

theorem swapPred_prepared (swaps : SwapsLast t leaf inside good pred) {ks ls : Assoc K V}
    {e : K × V} {n : Nat} {cs ds : List (Node (K × V) C)} {y s : Node (K × V) C}
    (sound : Sound t false (contents inside) (Filled t leaf inside good)
      ⟨ks ++ e :: ls,n,cs ++ y :: s :: ds⟩)
    (sorted : Ascending (contents (contents inside) ⟨ks ++ e :: ls,n,cs ++ y :: s :: ds⟩))
    (same : cs.length = ks.length) (isKey : key = e.1) (spare : t ≤ y.keys.length) :
    Prepared t leaf inside good key ⟨ks ++ e :: ls,n,cs ++ y :: s :: ds⟩
      (swapKey pred ⟨ks ++ e :: ls,n,cs ++ y :: s :: ds⟩ ks.length ks.length, ks.length) := by
  have filledY : Filled t leaf inside good y := sound.children y (by simp)
  have filledS : Filled t leaf inside good s := sound.children s (by simp)
  obtain ⟨l, p, y', swapped, wholeY, wholeY', filledY', sameLength⟩ := swaps y e filledY
  have atI : (ks ++ e :: ls)[ks.length]? = some e := get_window ks e ls
  have atY : (cs ++ y :: s :: ds)[ks.length]? = some y := by
    rw [← same]
    exact get_window cs y _
  have result : swapKey pred ⟨ks ++ e :: ls,n,cs ++ y :: s :: ds⟩ ks.length ks.length =
      ⟨ks ++ p :: ls,n,cs ++ y' :: s :: ds⟩ := by
    simp only [swapKey, atI, atY, swapped]
    rw [set_window, ← same, set_window]
  have before := contents_pair (contents inside) same e ls n y s ds
  have after := contents_pair (contents inside) same p ls n y' s ds
  rw [wholeY] at before
  rw [wholeY'] at after
  have sortedAll := sorted
  rw [before] at sortedAll
  have sortedPair := ascending_parts sortedAll
  have belowPair : Below key (l ++ [p]) := isKey ▸ below_of_ascending sortedPair
  have belowL : Below key l := fun a member => belowPair a (List.mem_append_left [p] member)
  have sortedL : Ascending l :=
    (ascending_append.mp (ascending_append.mp sortedPair).1).1
  have pair : e = (key, e.2) := by rw [isKey]
  have split : contents (contents inside) ⟨ks ++ e :: ls,n,cs ++ y :: s :: ds⟩ =
      (weave ks (cs.map (contents inside)) ++ (l ++ [p])) ++
        e :: (contents inside s ++ trail ls (ds.map (contents inside))) := by
    rw [before]
    simp
  have sortedSplit := sorted
  rw [split] at sortedSplit
  have belowAll := below_of_ascending sortedSplit
  have aboveAll := above_of_ascending sortedSplit
  rw [← isKey] at belowAll aboveAll
  have present : get (contents (contents inside) ⟨ks ++ e :: ls,n,cs ++ y :: s :: ds⟩) key =
      some e.2 := by
    rw [split, get_append_left belowAll, get_cons, if_pos isKey.symm]
  have erased : erase (contents (contents inside) ⟨ks ++ e :: ls,n,cs ++ y :: s :: ds⟩) key =
      (weave ks (cs.map (contents inside)) ++ (l ++ [p])) ++
        (contents inside s ++ trail ls (ds.map (contents inside))) := by
    rw [split, pair, erase_found belowAll aboveAll]
  rw [result]
  constructor
  case sound =>
    constructor
    case bound => simpa using sound.bound
    case arity => simpa using sound.arity
    case size =>
      have size := sound.size
      rw [before] at size
      rw [after]
      simp only [List.length_append, List.length_cons, List.length_nil] at size ⊢
      exact size
    case children =>
      have all := sound.children
      simp only [List.mem_append, List.mem_cons] at all ⊢
      intro a member
      rcases member with inCs | rfl | others
      · exact all a (Or.inl inCs)
      · exact filledY'
      · exact all a (Or.inr (Or.inr others))
  case fewer => simp
  case child =>
    refine ⟨weave ks (cs.map (contents inside)), y',
      p :: contents inside s ++ trail ls (ds.map (contents inside)), ?_, ?_, ?_, ?_, ?_, ?_, ?_⟩
    · rw [← same]
      exact get_window cs y' _
    · rw [sameLength]
      exact spare
    · rw [wholeY']
      refine ascending_append.mpr ⟨sortedL, List.pairwise_singleton _ _, ?_⟩
      intro a member b isE
      rw [List.mem_singleton.mp isE, ← isKey]
      exact belowL a member
    · intro c' m
      simp only
      rw [← same, set_window, contents_pair (contents inside) same]
      simp
    · rw [after, wholeY']
      simp
    · rw [wholeY', pair, erase_found belowL (by intro a member; cases member), ← pair, erased]
      simp
    · rw [wholeY', present, get_append_left belowL, get_cons, if_pos isKey.symm]

theorem swapSucc_prepared (swaps : SwapsFirst t leaf inside good succ) {ks ls : Assoc K V}
    {e : K × V} {n : Nat} {cs ds : List (Node (K × V) C)} {y s : Node (K × V) C}
    (sound : Sound t false (contents inside) (Filled t leaf inside good)
      ⟨ks ++ e :: ls,n,cs ++ y :: s :: ds⟩)
    (sorted : Ascending (contents (contents inside) ⟨ks ++ e :: ls,n,cs ++ y :: s :: ds⟩))
    (same : cs.length = ks.length) (isKey : key = e.1) (spare : t ≤ s.keys.length) :
    Prepared t leaf inside good key ⟨ks ++ e :: ls,n,cs ++ y :: s :: ds⟩
      (swapKey succ ⟨ks ++ e :: ls,n,cs ++ y :: s :: ds⟩ ks.length (ks.length + 1),
        ks.length + 1) := by
  have filledY : Filled t leaf inside good y := sound.children y (by simp)
  have filledS : Filled t leaf inside good s := sound.children s (by simp)
  obtain ⟨p, r, s', swapped, wholeS, wholeS', filledS', sameLength⟩ := swaps s e filledS
  have atI : (ks ++ e :: ls)[ks.length]? = some e := get_window ks e ls
  have atS : (cs ++ y :: s :: ds)[ks.length + 1]? = some s := by
    rw [← same]
    exact get_next_window cs y s ds
  have result : swapKey succ ⟨ks ++ e :: ls,n,cs ++ y :: s :: ds⟩ ks.length (ks.length + 1) =
      ⟨ks ++ p :: ls,n,cs ++ y :: s' :: ds⟩ := by
    simp only [swapKey, atI, atS, swapped]
    rw [set_window, ← same, set_next_window]
  have before := contents_pair (contents inside) same e ls n y s ds
  have after := contents_pair (contents inside) same p ls n y s' ds
  rw [wholeS] at before
  rw [wholeS'] at after
  have sortedAll := sorted
  rw [before] at sortedAll
  have sortedPair := ascending_parts sortedAll
  have abovePair : Above key (p :: r) := isKey ▸ above_of_ascending sortedPair
  have aboveR : Above key r := fun a member => abovePair a (List.mem_cons_of_mem p member)
  have sortedR : Ascending r :=
    (List.pairwise_cons.mp (List.pairwise_cons.mp (ascending_append.mp sortedPair).2.1).2).2
  have pair : e = (key, e.2) := by rw [isKey]
  have split : contents (contents inside) ⟨ks ++ e :: ls,n,cs ++ y :: s :: ds⟩ =
      (weave ks (cs.map (contents inside)) ++ contents inside y) ++
        e :: (p :: r ++ trail ls (ds.map (contents inside))) := by
    rw [before]
    simp
  have sortedSplit := sorted
  rw [split] at sortedSplit
  have belowAll := below_of_ascending sortedSplit
  have aboveAll := above_of_ascending sortedSplit
  rw [← isKey] at belowAll aboveAll
  have present : get (contents (contents inside) ⟨ks ++ e :: ls,n,cs ++ y :: s :: ds⟩) key =
      some e.2 := by
    rw [split, get_append_left belowAll, get_cons, if_pos isKey.symm]
  have erased : erase (contents (contents inside) ⟨ks ++ e :: ls,n,cs ++ y :: s :: ds⟩) key =
      (weave ks (cs.map (contents inside)) ++ contents inside y) ++
        (p :: r ++ trail ls (ds.map (contents inside))) := by
    rw [split, pair, erase_found belowAll aboveAll]
  have nothing : Below key ([] : Assoc K V) := by
    intro a member
    cases member
  have single : erase (e :: r) key = r := by
    have found := erase_found nothing aboveR e.2
    rw [← pair] at found
    exact found
  rw [result]
  constructor
  case sound =>
    constructor
    case bound => simpa using sound.bound
    case arity => simpa using sound.arity
    case size =>
      have size := sound.size
      rw [before] at size
      rw [after]
      simp only [List.length_append, List.length_cons] at size ⊢
      exact size
    case children =>
      have all := sound.children
      simp only [List.mem_append, List.mem_cons] at all ⊢
      intro a member
      rcases member with inCs | isY | rfl | others
      · exact all a (Or.inl inCs)
      · exact all a (Or.inr (Or.inl isY))
      · exact filledS'
      · exact all a (Or.inr (Or.inr (Or.inr others)))
  case fewer => simp
  case child =>
    refine ⟨weave ks (cs.map (contents inside)) ++ contents inside y ++ [p], s',
      trail ls (ds.map (contents inside)), ?_, ?_, ?_, ?_, ?_, ?_, ?_⟩
    · rw [← same]
      exact get_next_window cs y s' ds
    · rw [sameLength]
      exact spare
    · rw [wholeS']
      refine List.pairwise_cons.mpr ⟨?_, sortedR⟩
      intro a member
      rw [← isKey]
      exact aboveR a member
    · intro c' m
      simp only
      rw [← same, set_next_window, contents_pair (contents inside) same]
      simp
    · rw [after, wholeS']
      simp
    · rw [wholeS', single, erased]
      simp
    · rw [wholeS', present, get_cons, if_pos isKey.symm]

theorem pullKey_prepared (two : 2 ≤ t) (sized : ∀ c, good c → sizeOf c = (inside c).length)
    (swapsLast : SwapsLast t leaf inside good pred)
    (swapsFirst : SwapsFirst t leaf inside good succ) {x : Node (K × V) (Node (K × V) C)}
    (sound : Sound t false (contents inside) (Filled t leaf inside good) x)
    (sorted : Ascending (contents (contents inside) x)) {i : Nat} {e : K × V}
    (found : x.keys[i]? = some e) (isKey : key = e.1) :
    Prepared t leaf inside good key x (pullKey t sizeOf pred succ x i) := by
  obtain ⟨inRange, _⟩ := List.getElem?_eq_some_iff.mp found
  obtain ⟨ks, k, ls, cs, y, s, ds, shape, atI, same, rest⟩ := sound.cutPair inRange
  generalize x.size = n at shape
  subst shape
  subst atI
  have isE : k = e := Option.some.inj ((get_window ks k ls).symm.trans found)
  subst isE
  have atY : (cs ++ y :: s :: ds)[ks.length]? = some y := by
    rw [← same]
    exact get_window cs y _
  have atS : (cs ++ y :: s :: ds)[ks.length + 1]? = some s := by
    rw [← same]
    exact get_next_window cs y s ds
  simp only [pullKey, atY, atS, Option.any_some]
  by_cases before : y.canTakeKey t = true
  · rw [if_pos before]
    exact swapPred_prepared swapsLast sound sorted same isKey ((canTakeKey_iff two).mp before)
  · rw [if_neg before]
    by_cases behind : s.canTakeKey t = true
    · rw [if_pos behind]
      exact swapSucc_prepared swapsFirst sound sorted same isKey ((canTakeKey_iff two).mp behind)
    · rw [if_neg behind]
      rw [canTakeKey_iff two] at before behind
      have aroundK := around_key sorted (rfl : _ = ks ++ k :: ls)
      rw [← isKey] at aroundK
      exact mergeChild_prepared two sized sound sorted same (by omega) (by omega) rest aroundK.1
        fun a member => aroundK.2 a (List.mem_of_mem_head? member)

theorem removeInner_erases (two : 2 ≤ t) (sized : ∀ c, good c → sizeOf c = (inside c).length)
    (swapsLast : SwapsLast t leaf inside good pred)
    (swapsFirst : SwapsFirst t leaf inside good succ)
    {go : Node (K × V) C → Node (K × V) C × Nat} (erases : Erases t leaf inside good key go) :
    Erases t false (contents inside) (Filled t leaf inside good) key
      (removeInner t key sizeOf pred succ go) := by
  intro x sound nonempty sorted
  have positive : 0 < x.keys.length := by
    rcases nonempty with isLeaf | positive
    · cases isLeaf
    · exact positive
  simp only [removeInner]
  cases found : keyAt key x.keys (getLb key x.keys) with
  | some e =>
    obtain ⟨here, isKey⟩ := keyAt_some found
    simp only [Option.isSome_some, if_true]
    exact erased_descend two
      (pullKey_prepared two sized swapsLast swapsFirst sound sorted here isKey) erases
  | none =>
    have inRange : getLb key x.keys < x.children.length := by
      have arity : x.children.length = x.keys.length + 1 := sound.arity
      have le := getLb_le key x.keys
      omega
    simp only [Option.isSome_none, Bool.false_eq_true, if_false]
    exact erased_descend two
      (fixChild_prepared two sized sound sorted positive inRange (route_getLb found)) erases

end Pulling

end TinyMqBTreeErase
