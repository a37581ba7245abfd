import TinyMq.Storage.BTreeNodes

/-!
The turns of the loops that go down the index. `operator[]` and `insert` split a
full child before they enter it, `erase` fills a minimal one up, so that the
node a turn leaves behind is sound whatever happens below.
-/
namespace TinyMqBTreeSteps
open AssocLists SortedMaps Weaving TinyMqBTree TinyMqBTreeNodes
variable {K V C : Type} {t : Nat} {leaf : Bool} {inside : C → List (K × V)} {good : C → Prop}

theorem key_window {x : Node (K × V) C} (sound : Sound t leaf inside good x) {i : Nat} {e : K × V}
    (found : x.keys[i]? = some e) :
    ∃ l r, contents inside x = l ++ e :: r ∧
      ∀ e', contents inside { x with keys := x.keys.set i e' } = l ++ e' :: r := by
  obtain ⟨keys, size, children⟩ := x
  obtain ⟨inRange, _⟩ := List.getElem?_eq_some_iff.mp found
  obtain ⟨ks, d, ls, split, atI, here⟩ := window inRange
  have same : d = e := Option.some.inj (here.symm.trans found)
  subst same
  have splitKeys : keys = ks ++ d :: ls := split
  have arity : children.length = if leaf then 0 else keys.length + 1 := sound.arity
  have cut : leaf = true ∨ (children.take (i + 1)).length = ks.length + 1 := by
    cases isLeaf : leaf with
    | true => exact Or.inl rfl
    | false =>
      right
      rw [isLeaf] at arity
      simp only [Bool.false_eq_true, if_false] at arity
      have within : i < keys.length := inRange
      rw [List.length_take]
      omega
  have shape : (⟨keys,size,children⟩ : Node (K × V) C) =
      ⟨ks ++ d :: ls,size,children.take (i + 1) ++ children.drop (i + 1)⟩ := by
    rw [← splitKeys, List.take_append_drop]
  rw [shape] at sound
  have aligned := sound.aligned cut
  have split' : children.map inside =
      (children.take (i + 1)).map inside ++ (children.drop (i + 1)).map inside := by
    rw [← List.map_append, List.take_append_drop]
  refine ⟨weave ks ((children.take (i + 1)).map inside),
    weave ls ((children.drop (i + 1)).map inside), ?_, ?_⟩
  · simp only [contents]
    rw [splitKeys, split', weave_join aligned]
  · intro e'
    simp only [contents]
    rw [splitKeys, ← atI, set_window, atI, split', weave_join aligned]

theorem Sound.setKey {x : Node (K × V) C} (sound : Sound t leaf inside good x) {i : Nat}
    {e : K × V} (found : x.keys[i]? = some e) (e' : K × V) :
    Sound t leaf inside good { x with keys := x.keys.set i e' } := by
  obtain ⟨l, r, whole, after⟩ := key_window sound found
  constructor
  case bound => simpa using sound.bound
  case arity => simpa using sound.arity
  case size =>
    rw [after e']
    have size := sound.size
    rw [whole] at size
    simpa using size
  case children => exact sound.children

theorem child_window {x : Node (K × V) C} (sound : Sound t false inside good x) {j : Nat} {c : C}
    (here : x.children[j]? = some c) :
    ∃ l r, contents inside x = l ++ inside c ++ r ∧
      ∀ c' n, contents inside ⟨x.keys,n,x.children.set j c'⟩ = l ++ inside c' ++ r := by
  obtain ⟨ks, ls, cs, ds, shape, atJ, same, rest⟩ := sound.cut here
  obtain ⟨keys, size, children⟩ := x
  have splitKeys : keys = ks ++ ls := congrArg Node.keys shape
  have splitChildren : children = cs ++ c :: ds := congrArg Node.children shape
  subst splitKeys splitChildren
  refine ⟨weave ks (cs.map inside), trail ls (ds.map inside), ?_, ?_⟩
  · exact contents_window inside same ls size c ds
  · intro c' n
    simp only
    rw [← atJ, ← same, set_window]
    exact contents_window inside same ls n c' ds

theorem Sound.setChild {x : Node (K × V) C} (sound : Sound t false inside good x) {j n : Nat}
    {c' : C} (goodC : good c')
    (size : n = (contents inside ⟨x.keys,n,x.children.set j c'⟩).length) :
    Sound t false inside good ⟨x.keys,n,x.children.set j c'⟩ := by
  constructor
  case bound => exact sound.bound
  case arity => simpa using sound.arity
  case size => exact size
  case children =>
    intro c member
    rcases List.mem_or_eq_of_mem_set member with old | new
    · exact sound.children c old
    · rw [new]
      exact goodC

variable [LinearOrder K] {key : K}

/-- The key is not in the node and belongs into the child at `j`. -/
def Route (key : K) (x : Node (K × V) C) (j : Nat) : Prop :=
  Below key (x.keys.take j) ∧ ∀ e ∈ x.keys[j]?, key < e.1

theorem getLb_le (key : K) (ks : List (K × V)) : getLb key ks ≤ ks.length :=
  (List.takeWhile_prefix _).length_le

theorem getLb_below (ks : List (K × V)) : Below key (ks.take (getLb key ks)) := by
  induction ks with
  | nil => intro e member; simp at member
  | cons e ks ih =>
    by_cases lower : e.1 < key
    · have next : getLb key (e :: ks) = getLb key ks + 1 := by simp [getLb, lower]
      rw [next, List.take_succ_cons]
      intro a member
      rcases List.mem_cons.mp member with here | later
      · rw [here]
        exact lower
      · exact ih a later
    · have first : getLb key (e :: ks) = 0 := by simp [getLb, lower]
      rw [first]
      intro a member
      simp at member

theorem getLb_not_below (ks : List (K × V)) : ∀ e ∈ ks[getLb key ks]?, ¬ e.1 < key := by
  induction ks with
  | nil => intro e member; simp at member
  | cons a ks ih =>
    by_cases lower : a.1 < key
    · have next : getLb key (a :: ks) = getLb key ks + 1 := by simp [getLb, lower]
      rw [next, List.getElem?_cons_succ]
      exact ih
    · have first : getLb key (a :: ks) = 0 := by simp [getLb, lower]
      rw [first]
      intro e member
      simp only [List.getElem?_cons_zero, Option.mem_def, Option.some.injEq] at member
      rw [← member]
      exact lower

theorem keyAt_some {ks : List (K × V)} {i : Nat} {e : K × V} (found : keyAt key ks i = some e) :
    ks[i]? = some e ∧ key = e.1 := by
  rw [keyAt, Option.filter_eq_some_iff] at found
  exact ⟨found.1, of_decide_eq_true found.2⟩

theorem keyAt_none {ks : List (K × V)} {i : Nat} (absent : keyAt key ks i = none) :
    ∀ e ∈ ks[i]?, key ≠ e.1 := by
  intro e member same
  have found : keyAt key ks i = some e := by
    rw [keyAt, Option.filter_eq_some_iff]
    exact ⟨member, decide_eq_true same⟩
  rw [absent] at found
  cases found

theorem above_drop {ks : Assoc K V} (sorted : Ascending ks)
    (absent : keyAt key ks (getLb key ks) = none) : Above key (ks.drop (getLb key ks)) := by
  have tail : Ascending (ks.drop (getLb key ks)) :=
    List.Pairwise.sublist (List.drop_sublist _ _) sorted
  have first : ∀ e ∈ (ks.drop (getLb key ks)).head?, key < e.1 := by
    rw [List.head?_drop]
    intro e member
    exact lt_of_le_of_ne (not_lt.mp (getLb_not_below ks e member)) (keyAt_none absent e member)
  cases rest : ks.drop (getLb key ks) with
  | nil =>
    intro e member
    cases member
  | cons a as =>
    rw [rest] at tail first
    have higher : key < a.1 := first a rfl
    intro e member
    rcases List.mem_cons.mp member with here | later
    · rw [here]
      exact higher
    · exact higher.trans ((List.pairwise_cons.mp tail).1 e later)

theorem get_absent {ks : Assoc K V} (sorted : Ascending ks)
    (absent : keyAt key ks (getLb key ks) = none) : get ks key = none := by
  rw [← List.take_append_drop (getLb key ks) ks, get_append_left (getLb_below ks)]
  exact get_above (above_drop sorted absent)

theorem route_getLb {x : Node (K × V) C} (absent : keyAt key x.keys (getLb key x.keys) = none) :
    Route key x (getLb key x.keys) := by
  refine ⟨getLb_below x.keys, ?_⟩
  intro e member
  have notLower := getLb_not_below x.keys e member
  exact lt_of_le_of_ne (not_lt.mp notLower) (keyAt_none absent e member)

theorem route_window {x : Node (K × V) C} (sound : Sound t false inside good x)
    (sorted : Ascending (contents inside x)) {j : Nat} {c : C} (here : x.children[j]? = some c)
    (route : Route key x j) :
    ∃ l r, contents inside x = l ++ inside c ++ r ∧ Below key l ∧ Above key r ∧
      ∀ c' n, contents inside ⟨x.keys,n,x.children.set j c'⟩ = l ++ inside c' ++ r := by
  obtain ⟨ks, ls, cs, ds, shape, atJ, same, rest⟩ := sound.cut here
  obtain ⟨keys, size, children⟩ := x
  have splitKeys : keys = ks ++ ls := congrArg Node.keys shape
  have splitChildren : children = cs ++ c :: ds := congrArg Node.children shape
  subst splitKeys splitChildren
  obtain ⟨lower, higher⟩ := route
  have first : (ks ++ ls).take j = ks := by
    rw [← atJ]
    simp
  have next : (ks ++ ls)[j]? = ls.head? := by
    rw [← atJ, List.getElem?_append_right (Nat.le_refl _), Nat.sub_self,
      ← List.head?_eq_getElem?]
  simp only [first] at lower
  simp only [next] at higher
  have whole := contents_window inside same ls size c ds
  rw [whole] at sorted
  have sortedParts := ascending_append.mp sorted
  have sortedLeft := (ascending_append.mp sortedParts.1).1
  refine ⟨weave ks (cs.map inside), trail ls (ds.map inside), whole, ?_, ?_, ?_⟩
  · exact below_weave (by simp [same]) sortedLeft lower
  · exact above_trail (by simp [rest]) sortedParts.2.1 higher
  · intro c' n
    simp only
    rw [← atJ, ← same, set_window]
    exact contents_window inside same ls n c' ds

section Placing
variable {f : Option V → V}

structure Placed (t : Nat) (leaf : Bool) (inside : C → List (K × V)) (good : C → Prop) (key : K)
    (f : Option V → V) (x : Node (K × V) C) (r : Node (K × V) C × Nat) : Prop where
  sound : Sound t leaf inside good r.1
  grows : x.keys.length ≤ r.1.keys.length
  entries : contents inside r.1 = place key f (contents inside x)
  count : r.2 = if get (contents inside x) key = none then 1 else 0

/-- What the loop does with a node that has room for one more key. -/
def Places (t : Nat) (leaf : Bool) (inside : C → List (K × V)) (good : C → Prop) (key : K)
    (f : Option V → V) (go : Node (K × V) C → Node (K × V) C × Nat) : Prop :=
  ∀ x, Sound t leaf inside good x → x.keys.length < 2 * t - 1 → Ascending (contents inside x) →
    Placed t leaf inside good key f x (go x)

theorem placed_found {x : Node (K × V) C} (sound : Sound t leaf inside good x)
    (sorted : Ascending (contents inside x)) {i : Nat} {e : K × V}
    (found : x.keys[i]? = some e) (same : key = e.1) :
    Placed t leaf inside good key f x
      ({ x with keys := x.keys.set i (e.1, f (some e.2)) }, 0) := by
  obtain ⟨l, r, whole, after⟩ := key_window sound found
  have below : Below key l := by
    rw [same]
    rw [whole] at sorted
    exact below_of_ascending sorted
  have pair : e = (key, e.2) := by rw [same]
  constructor
  case sound => exact Sound.setKey sound found _
  case grows => simp
  case entries =>
    rw [after, whole, ← same, pair, place_found below]
  case count =>
    have present : get (contents inside x) key = some e.2 := by
      rw [whole, get_append_left below, get_cons, if_pos same.symm]
    rw [present]
    rfl

theorem placeLeaf_places : Places t true inside good key f (placeLeaf key f) := by
  intro x sound room sorted
  simp only [placeLeaf]
  cases found : keyAt key x.keys (getLb key x.keys) with
  | some e =>
    obtain ⟨here, same⟩ := keyAt_some found
    exact placed_found sound sorted here same
  | none =>
    obtain ⟨keys, size, children⟩ := x
    have none : children = [] := List.length_eq_zero_iff.mp sound.arity
    subst none
    simp only at found room ⊢
    have whole : ∀ ks n, contents inside ⟨ks,n,[]⟩ = ks := by
      intro ks n
      simp [contents]
    rw [whole] at sorted
    have atLb : (keys.take (getLb key keys)).length = getLb key keys :=
      List.length_take_of_le (getLb_le key keys)
    have above := above_drop sorted found
    have placed : keys.insertIdx (getLb key keys) (key, f none) = place key f keys := by
      have split : keys.take (getLb key keys) ++ keys.drop (getLb key keys) = keys :=
        List.take_append_drop _ _
      calc keys.insertIdx (getLb key keys) (key, f none)
          = (keys.take (getLb key keys) ++ keys.drop (getLb key keys)).insertIdx
              (keys.take (getLb key keys)).length (key, f none) := by rw [split, atLb]
        _ = keys.take (getLb key keys) ++ (key, f none) :: keys.drop (getLb key keys) :=
            insertIdx_window _ _ _
        _ = keys.take (getLb key keys) ++ place key f (keys.drop (getLb key keys)) := by
            rw [place_above above]
        _ = place key f (keys.take (getLb key keys) ++ keys.drop (getLb key keys)) := by
            rw [place_append_left (getLb_below keys)]
        _ = place key f keys := by rw [split]
    have longer : (keys.insertIdx (getLb key keys) (key, f none)).length = keys.length + 1 :=
      List.length_insertIdx_of_le_length (getLb_le key keys) _
    constructor
    case sound =>
      constructor
      case bound =>
        simp only [Node.insertLeaf]
        omega
      case arity => rfl
      case size =>
        have counted : size = keys.length := by
          rw [← whole keys size]
          exact sound.size
        simp only [Node.insertLeaf, whole]
        omega
      case children => exact sound.children
    case grows =>
      simp only [Node.insertLeaf]
      omega
    case entries => simp only [Node.insertLeaf, whole, placed]
    case count => simp only [whole, get_absent sorted found, if_true]

theorem placed_after {x x' : Node (K × V) C} {r : Node (K × V) C × Nat}
    (placed : Placed t leaf inside good key f x' r)
    (same : contents inside x' = contents inside x) (more : x.keys.length ≤ x'.keys.length) :
    Placed t leaf inside good key f x r := by
  constructor
  case sound => exact placed.sound
  case grows => exact more.trans placed.grows
  case entries => rw [placed.entries, same]
  case count => rw [placed.count, same]

theorem placed_descend {x : Node (K × V) C} (sound : Sound t false inside good x)
    (sorted : Ascending (contents inside x)) {j : Nat} {c : C} (here : x.children[j]? = some c)
    (route : Route key x j) {go : C → C × Nat} (goodC : good (go c).1)
    (placed : inside (go c).1 = place key f (inside c))
    (count : (go c).2 = if get (inside c) key = none then 1 else 0) :
    Placed t false inside good key f x (x.descend (· + ·) j go) := by
  obtain ⟨l, r, whole, below, above, after⟩ := route_window sound sorted here route
  have result : x.descend (· + ·) j go =
      (⟨x.keys,x.size + (go c).2,x.children.set j (go c).1⟩, (go c).2) := by
    simp only [Node.descend, here]
  have placedAll : contents inside ⟨x.keys,x.size + (go c).2,x.children.set j (go c).1⟩ =
      place key f (contents inside x) := by
    rw [after, placed, whole, place_middle below above]
  have counted : (go c).2 = if get (contents inside x) key = none then 1 else 0 := by
    rw [count, whole, get_middle below above]
  rw [result]
  constructor
  case sound =>
    apply Sound.setChild sound goodC
    rw [placedAll, length_place sorted, ← sound.size, counted]
  case grows => exact Nat.le_refl _
  case entries => exact placedAll
  case count => exact counted

theorem placeInner_places (two : 2 ≤ t) {sizeOf : C → Nat}
    (sized : ∀ c, good c → sizeOf c = (inside c).length)
    {go : Node (K × V) C → Node (K × V) C × Nat} (places : Places t leaf inside good key f go) :
    Places t false (contents inside) (Filled t leaf inside good) key f
      (placeInner t key f sizeOf go) := by
  -- below a child with room the loop goes on as `places` says
  have below : ∀ {x : Node (K × V) (Node (K × V) C)} {j : Nat} {y : Node (K × V) C},
      Sound t false (contents inside) (Filled t leaf inside good) x →
      Ascending (contents (contents inside) x) → x.children[j]? = some y →
      y.keys.length < 2 * t - 1 → Route key x j →
      Placed t false (contents inside) (Filled t leaf inside good) key f x
        (x.descend (· + ·) j go) := by
    intro x j y sound sorted here room route
    obtain ⟨l, r, whole, _⟩ := child_window sound here
    have filled : Filled t leaf inside good y := sound.children y (List.mem_of_getElem? here)
    rw [whole] at sorted
    have placed := places y filled.2 room (ascending_parts sorted)
    rw [← whole] at sorted
    exact placed_descend sound sorted here route ⟨filled.1.trans placed.grows, placed.sound⟩
      placed.entries placed.count
  intro x sound room sorted
  simp only [placeInner]
  cases found : keyAt key x.keys (getLb key x.keys) with
  | some e =>
    obtain ⟨here, same⟩ := keyAt_some found
    exact placed_found sound sorted here same
  | none =>
    have route := route_getLb found
    have inRange : getLb key x.keys < x.children.length := by
      have arity : x.children.length = x.keys.length + 1 := sound.arity
      have le := getLb_le key x.keys
      omega
    have here := List.getElem?_eq_getElem inRange
    generalize x.children[getLb key x.keys] = y at here
    have filled : Filled t leaf inside good y := sound.children y (List.mem_of_getElem? here)
    simp only [here, Option.any_some]
    cases full : y.isFull t with
    | false =>
      have notFull : y.keys.length ≠ 2 * t - 1 := by simpa [Node.isFull] using full
      have bound := filled.2.bound
      exact below sound sorted here (by omega) route
    | true =>
      obtain ⟨ks, ls, cs, ds, shape, atI, same, rest⟩ := sound.cut here
      obtain ⟨keys, size, children⟩ := x
      have splitKeys : keys = ks ++ ls := congrArg Node.keys shape
      have splitChildren : children = cs ++ y :: ds := congrArg Node.children shape
      subst splitKeys splitChildren
      obtain ⟨y₁, middle, y₂, split, filled₁, filled₂, few₁, few₂, parts⟩ :=
        splitChild_window two sized filled.2 full same ls ds size
      obtain ⟨sound', equal⟩ := sound.splitPair room same filled₁ filled₂ parts
      have sorted' := sorted
      rw [← equal] at sorted'
      have more : (ks ++ ls).length ≤ (ks ++ middle :: ls).length := by simp
      have middleAt : (ks ++ middle :: ls)[ks.length]? = some middle := get_window ks middle ls
      obtain ⟨lower, higher⟩ := route
      simp only [← atI] at lower higher ⊢
      have before : (ks ++ ls).take ks.length = ks := by simp
      rw [before] at lower
      simp only [if_true, split, middleAt]
      split
      · rename_i equalKey
        exact placed_after (placed_found sound' sorted' middleAt equalKey) equal more
      · rename_i other
        split
        · rename_i isLower
          have child : (cs ++ y₁ :: y₂ :: ds)[ks.length + 1]? = some y₂ := by
            rw [← same]
            exact get_next_window cs y₁ y₂ ds
          refine placed_after (below sound' sorted' child (by omega) ⟨?_, ?_⟩) equal more
          · have upTo : (ks ++ middle :: ls).take (ks.length + 1) = ks ++ [middle] := by
              rw [List.take_append]
              simp
            simp only [upTo]
            intro e member
            rcases List.mem_append.mp member with inKs | isMiddle
            · exact lower e inKs
            · rw [List.mem_singleton.mp isMiddle]
              exact isLower
          · have next : (ks ++ middle :: ls)[ks.length + 1]? = (ks ++ ls)[ks.length]? := by
              rw [List.getElem?_append_right (Nat.le_succ _),
                List.getElem?_append_right (Nat.le_refl _)]
              simp
            simp only [next]
            exact higher
        · rename_i notLower
          have child : (cs ++ y₁ :: y₂ :: ds)[ks.length]? = some y₁ := by
            rw [← same]
            exact get_window cs y₁ _
          refine placed_after (below sound' sorted' child (by omega) ⟨?_, ?_⟩) equal more
          · simpa using lower
          · intro e member
            simp only [middleAt, Option.mem_def, Option.some.injEq] at member
            rw [← member]
            exact lt_of_le_of_ne (not_lt.mp notLower) other

end Placing

section Erasing

structure Erased (t : Nat) (leaf : Bool) (inside : C → List (K × V)) (good : C → Prop) (key : K)
    (x : Node (K × V) C) (r : Node (K × V) C × Nat) : Prop where
  sound : Sound t leaf inside good r.1
  shrinks : x.keys.length ≤ r.1.keys.length + 1
  entries : contents inside r.1 = erase (contents inside x) key
  count : r.2 = if get (contents inside x) key = none then 0 else 1

/-- What the loop does with a node that can spare a key. -/
def Erases (t : Nat) (leaf : Bool) (inside : C → List (K × V)) (good : C → Prop) (key : K)
    (go : Node (K × V) C → Node (K × V) C × Nat) : Prop :=
  ∀ x, Sound t leaf inside good x → leaf = true ∨ 0 < x.keys.length →
    Ascending (contents inside x) → Erased t leaf inside good key x (go x)

theorem removeLeaf_erases : Erases t true inside good key (removeLeaf key) := by
  intro x sound _ sorted
  obtain ⟨keys, size, children⟩ := x
  have none : children = [] := List.length_eq_zero_iff.mp sound.arity
  subst none
  have whole : ∀ ks n, contents inside ⟨ks,n,[]⟩ = ks := by
    intro ks n
    simp [contents]
  have counted : size = keys.length := by
    rw [← whole keys size]
    exact sound.size
  have bound : keys.length ≤ 2 * t - 1 := sound.bound
  rw [whole] at sorted
  simp only [removeLeaf]
  cases found : keyAt key keys (getLb key keys) with
  | none =>
    have absent := get_absent sorted found
    have kept : erase keys key = keys := by
      have split := List.take_append_drop (getLb key keys) keys
      rw [← split, erase_append, erase_below (getLb_below keys),
        erase_above (above_drop sorted found)]
    constructor
    case sound => exact sound
    case shrinks => simp
    case entries => simp [whole, kept]
    case count => simp [whole, absent]
  | some e =>
    obtain ⟨here, same⟩ := keyAt_some found
    obtain ⟨inRange, _⟩ := List.getElem?_eq_some_iff.mp here
    obtain ⟨ks, d, ls, split, atLb, at_⟩ := window inRange
    have isKey : d = e := Option.some.inj (at_.symm.trans here)
    subst isKey
    have erasedKeys : keys.eraseIdx (getLb key keys) = ks ++ ls := by
      rw [← atLb, split]
      exact eraseIdx_window ks d ls
    have pair : d = (key, d.2) := by rw [same]
    have sortedSplit := sorted
    rw [split] at sortedSplit
    have below : Below key ks := same ▸ below_of_ascending sortedSplit
    have above : Above key ls := same ▸ above_of_ascending sortedSplit
    have erased : erase keys key = ks ++ ls := by
      rw [split, pair, erase_found below above]
    have present : get keys key = some d.2 := by
      rw [split, get_append_left below, get_cons, if_pos same.symm]
    have length : keys.length = (ks ++ ls).length + 1 := by
      rw [split]
      simp
      omega
    constructor
    case sound =>
      constructor
      case bound =>
        simp only [Option.isSome_some, if_true, Node.eraseLeaf, erasedKeys]
        omega
      case arity => rfl
      case size =>
        simp only [Option.isSome_some, if_true, Node.eraseLeaf, whole, erasedKeys]
        omega
      case children => exact sound.children
    case shrinks =>
      simp only [Option.isSome_some, if_true, Node.eraseLeaf, erasedKeys]
      omega
    case entries => simp [whole, Node.eraseLeaf, erasedKeys, erased]
    case count => simp [whole, present]

/-- A node made ready for the loop to go on in the child at `p.2`: that child
    can spare a key, and erasing in it erases in the node. -/
structure Prepared (t : Nat) (leaf : Bool) (inside : C → List (K × V)) (good : C → Prop) (key : K)
    (x : Node (K × V) (Node (K × V) C)) (p : Node (K × V) (Node (K × V) C) × Nat) : Prop where
  sound : Sound t false (contents inside) (Filled t leaf inside good) p.1
  fewer : x.keys.length ≤ p.1.keys.length + 1
  child : ∃ l c r, p.1.children[p.2]? = some c ∧ t ≤ c.keys.length ∧
    Ascending (contents inside c) ∧
    (∀ c' n, contents (contents inside) ⟨p.1.keys,n,p.1.children.set p.2 c'⟩ =
      l ++ contents inside c' ++ r) ∧
    contents (contents inside) p.1 = l ++ contents inside c ++ r ∧
    l ++ erase (contents inside c) key ++ r = erase (contents (contents inside) x) key ∧
    get (contents inside c) key = get (contents (contents inside) x) key

theorem erased_descend (two : 2 ≤ t) {x : Node (K × V) (Node (K × V) C)}
    {p : Node (K × V) (Node (K × V) C) × Nat} (prepared : Prepared t leaf inside good key x p)
    {go : Node (K × V) C → Node (K × V) C × Nat} (erases : Erases t leaf inside good key go) :
    Erased t false (contents inside) (Filled t leaf inside good) key x
      (p.1.descend (· - ·) p.2 go) := by
  obtain ⟨l, c, r, here, spare, sortedC, after, whole, erased, present⟩ := prepared.child
  have filled : Filled t leaf inside good c :=
    prepared.sound.children c (List.mem_of_getElem? here)
  have step := erases c filled.2 (Or.inr (by omega)) sortedC
  have result : p.1.descend (· - ·) p.2 go =
      (⟨p.1.keys,p.1.size - (go c).2,p.1.children.set p.2 (go c).1⟩, (go c).2) := by
    simp only [Node.descend, here]
  have shorter := step.shrinks
  have total := length_erase sortedC key
  rw [result]
  constructor
  case sound =>
    apply Sound.setChild prepared.sound ⟨by omega, step.sound⟩
    rw [after, step.entries, prepared.sound.size, whole, step.count]
    simp only [List.length_append]
    split at total
    · rw [if_pos (by assumption)]
      omega
    · rw [if_neg (by assumption)]
      omega
  case shrinks => exact prepared.fewer
  case entries => rw [after, step.entries, erased]
  case count => rw [step.count, present]

theorem prepared_within {x : Node (K × V) (Node (K × V) C)}
    {p : Node (K × V) (Node (K × V) C) × Nat}
    (sound : Sound t false (contents inside) (Filled t leaf inside good) p.1)
    (fewer : x.keys.length ≤ p.1.keys.length + 1)
    (sorted : Ascending (contents (contents inside) x))
    (same : contents (contents inside) p.1 = contents (contents inside) x)
    {c : Node (K × V) C} (here : p.1.children[p.2]? = some c) (spare : t ≤ c.keys.length)
    {l r : Assoc K V} (below : Below key l) (above : Above key r)
    (whole : contents (contents inside) p.1 = l ++ contents inside c ++ r)
    (after : ∀ c' n, contents (contents inside) ⟨p.1.keys,n,p.1.children.set p.2 c'⟩ =
      l ++ contents inside c' ++ r) : Prepared t leaf inside good key x p := by
  have split : contents (contents inside) x = l ++ contents inside c ++ r := same.symm.trans whole
  have sortedC := sorted
  rw [split] at sortedC
  refine ⟨sound, fewer, l, c, r, here, spare, ascending_parts sortedC, after, whole, ?_, ?_⟩
  · rw [split, erase_middle below above]
  · rw [split, get_middle below above]

theorem prepared_route {x : Node (K × V) (Node (K × V) C)}
    {p : Node (K × V) (Node (K × V) C) × Nat}
    (sound : Sound t false (contents inside) (Filled t leaf inside good) p.1)
    (fewer : x.keys.length ≤ p.1.keys.length + 1)
    (sorted : Ascending (contents (contents inside) x))
    (same : contents (contents inside) p.1 = contents (contents inside) x)
    {c : Node (K × V) C} (here : p.1.children[p.2]? = some c) (spare : t ≤ c.keys.length)
    (route : Route key p.1 p.2) : Prepared t leaf inside good key x p := by
  have sortedP := sorted
  rw [← same] at sortedP
  obtain ⟨l, r, whole, below, above, after⟩ := route_window sound sortedP here route
  exact prepared_within sound fewer sorted same here spare below above whole after

end Erasing

end TinyMqBTreeSteps
