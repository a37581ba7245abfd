import TinyMq.Storage.BTreeErase
import TinyMq.Lib.Machines

/-!
The whole index. A valid tree is a sound root over filled children, in ascending
order; every operation keeps it and does to the entries what the same operation
does to a map. The runs are over any keys and values and any fanout from two on.
-/
namespace TinyMqBTreeRuns
open AssocLists SortedMaps Weaving Machines TinyMqBTree TinyMqBTreeNodes TinyMqBTreeSteps
open TinyMqBTreeErase
variable {K V : Type} {t : Nat}

def isLeaf : Nat → Bool
  | 0 => true
  | _ + 1 => false

def inside : (h : Nat) → Level (K × V) h → List (K × V)
  | 0, c => Empty.elim c
  | h + 1, x => contents (inside h) x

def good (t : Nat) : (h : Nat) → Level (K × V) h → Prop
  | 0, _ => True
  | h + 1, x => Filled t (isLeaf h) (inside h) (good t h) x

theorem sized (h : Nat) (c : Level (K × V) h) (holds : good t h c) :
    Level.size h c = (inside h c).length := by
  cases h with
  | zero => exact Empty.elim c
  | succ h => exact holds.2.size

theorem swapRightmost_swaps (two : 2 ≤ t) (h : Nat) :
    SwapsLast t (isLeaf h) (inside (K := K) (V := V) h) (good t h) (swapRightmost h) := by
  induction h with
  | zero =>
    intro y e filled
    obtain ⟨keys, size, children⟩ := y
    have none : children = [] := List.length_eq_zero_iff.mp filled.2.arity
    subst none
    have enough : t - 1 ≤ keys.length := filled.1
    rcases List.eq_nil_or_concat keys with empty | ⟨before, last, shape⟩
    · rw [empty, List.length_nil] at enough
      omega
    · rw [List.concat_eq_append] at shape
      subst shape
      refine ⟨before, last, ⟨before ++ [e],size,[]⟩, ?_, ?_, ?_, ⟨?_, ?_⟩, ?_⟩
      · simp [swapRightmost]
      · simp [contents]
      · simp [contents]
      · simpa using enough
      · constructor
        case bound => simpa using filled.2.bound
        case arity => rfl
        case size =>
          have size := filled.2.size
          simpa [contents] using size
        case children => exact filled.2.children
      · simp
  | succ h ih => exact swapLastChild_swaps ih

theorem swapLeftmost_swaps (two : 2 ≤ t) (h : Nat) :
    SwapsFirst t (isLeaf h) (inside (K := K) (V := V) h) (good t h) (swapLeftmost h) := by
  induction h with
  | zero =>
    intro y e filled
    obtain ⟨keys, size, children⟩ := y
    have none : children = [] := List.length_eq_zero_iff.mp filled.2.arity
    subst none
    have enough : t - 1 ≤ keys.length := filled.1
    cases keys with
    | nil =>
      rw [List.length_nil] at enough
      omega
    | cons first rest =>
      refine ⟨first, rest, ⟨e :: rest,size,[]⟩, rfl, ?_, ?_, ⟨enough, ?_⟩, rfl⟩
      · simp [contents]
      · simp [contents]
      · constructor
        case bound => exact filled.2.bound
        case arity => rfl
        case size =>
          have size := filled.2.size
          simpa [contents] using size
        case children => exact filled.2.children
  | succ h ih => exact swapFirstChild_swaps ih

section Height

theorem sum_least {α : Type} {m : Nat} {cs : List (List α)} (all : ∀ c ∈ cs, m ≤ c.length + 1) :
    cs.length * m ≤ (cs.map List.length).sum + cs.length := by
  induction cs with
  | nil => simp
  | cons c cs ih =>
    have first := all c List.mem_cons_self
    have rest := ih fun d member => all d (List.mem_cons_of_mem c member)
    rw [List.length_cons, List.map_cons, List.sum_cons, Nat.add_mul, Nat.one_mul]
    omega

theorem contents_least {C : Type} {inside : C → List (K × V)} {good : C → Prop} {m n : Nat}
    {x : Node (K × V) C} (sound : Sound t false inside good x)
    (least : ∀ c, good c → m ≤ (inside c).length + 1) (many : n ≤ x.keys.length + 1) :
    n * m ≤ (contents inside x).length + 1 := by
  have arity : x.children.length = x.keys.length + 1 := sound.arity
  have all : ∀ c ∈ x.children.map inside, m ≤ c.length + 1 := by
    intro c member
    obtain ⟨d, isChild, rfl⟩ := List.mem_map.mp member
    exact least d (sound.children d isChild)
  have total := sum_least all
  rw [List.length_map, arity] at total
  rw [contents, length_weave]
  have scaled : n * m ≤ (x.keys.length + 1) * m := Nat.mul_le_mul_right m many
  omega

theorem filled_least (two : 2 ≤ t) (h : Nat) {x : Node (K × V) (Level (K × V) h)}
    (filled : Filled t (isLeaf h) (inside h) (good t h) x) :
    t ^ (h + 1) ≤ (contents (inside h) x).length + 1 := by
  have enough := filled.1
  induction h with
  | zero =>
    have keys := (keys_sublist_contents (inside 0) x).length_le
    rw [Nat.zero_add, Nat.pow_one]
    omega
  | succ h ih =>
    rw [Nat.pow_succ, Nat.mul_comm]
    exact contents_least filled.2 (fun c holds => ih holds holds.1) (by omega)

end Height

variable [LinearOrder K] {key : K}

theorem placeLb_places (two : 2 ≤ t) (key : K) (f : Option V → V) (h : Nat) :
    Places t (isLeaf h) (inside h) (good t h) key f (placeLb t key f h) := by
  induction h with
  | zero => exact placeLeaf_places
  | succ h ih => exact placeInner_places two (sized h) ih

theorem eraseLb_erases (two : 2 ≤ t) (key : K) (h : Nat) :
    Erases t (isLeaf h) (inside (V := V) h) (good t h) key (eraseLb t key h) := by
  induction h with
  | zero => exact removeLeaf_erases
  | succ h ih =>
    exact removeInner_erases two (sized h) (swapRightmost_swaps two h) (swapLeftmost_swaps two h)
      ih

theorem search_get (h : Nat) {x : Node (K × V) (Level (K × V) h)}
    (sound : Sound t (isLeaf h) (inside h) (good t h) x)
    (sorted : Ascending (contents (inside h) x)) :
    (search key h x).map (·.2) = get (contents (inside h) x) key := by
  -- a pair of the node with the key is what the contents have under it
  have hit : ∀ {e}, keyAt key x.keys (getLb key x.keys) = some e →
      some e.2 = get (contents (inside h) x) key := by
    intro e found
    obtain ⟨here, isKey⟩ := keyAt_some found
    obtain ⟨l, r, whole, _⟩ := key_window sound here
    have split := sorted
    rw [whole] at split
    have below : Below key l := isKey ▸ below_of_ascending split
    rw [whole, get_append_left below, get_cons, if_pos isKey.symm]
  induction h with
  | zero =>
    obtain ⟨keys, size, children⟩ := x
    have none : children = [] := List.length_eq_zero_iff.mp sound.arity
    subst none
    simp only [search]
    cases found : keyAt key keys (getLb key keys) with
    | some e => exact hit found
    | none =>
      have whole : contents (inside 0) (⟨keys,size,[]⟩ : Node (K × V) (Level (K × V) 0)) = keys :=
        by simp [contents]
      rw [whole] at sorted ⊢
      exact (get_absent sorted found).symm
  | succ h ih =>
    simp only [search]
    cases found : keyAt key x.keys (getLb key x.keys) with
    | some e => exact hit found
    | none =>
      have inRange : getLb key x.keys < x.children.length := by
        have arity : x.children.length = x.keys.length + 1 := sound.arity
        have le := getLb_le key x.keys
        omega
      have here := List.getElem?_eq_getElem inRange
      generalize x.children[getLb key x.keys] = c at here
      obtain ⟨l, r, whole, below, above, _⟩ := route_window sound sorted here (route_getLb found)
      have filled : Filled t (isLeaf h) (inside h) (good t h) c :=
        sound.children c (List.mem_of_getElem? here)
      have sortedC := sorted
      rw [whole] at sortedC
      have sortedInside : Ascending (contents (inside h) c) := ascending_parts sortedC
      have deeper := ih filled.2 sortedInside
      have atC : inside (h + 1) c = contents (inside h) c := rfl
      rw [whole, get_middle below above, atC]
      simp only [here]
      apply deeper
      intro e foundC
      obtain ⟨hereC, isKey⟩ := keyAt_some foundC
      obtain ⟨lC, rC, wholeC, _⟩ := key_window filled.2 hereC
      have split := sortedInside
      rw [wholeC] at split
      have belowC : Below key lC := isKey ▸ below_of_ascending split
      rw [wholeC, get_append_left belowC, get_cons, if_pos isKey.symm]

def entries (b : BTree (K × V)) : List (K × V) := contents (inside b.height) b.root

structure Valid (t : Nat) (b : BTree (K × V)) : Prop where
  sound : Sound t (isLeaf b.height) (inside b.height) (good t b.height) b.root
  rooted : isLeaf b.height = true ∨ 0 < b.root.keys.length
  ascending : Ascending (entries b)

theorem valid_empty : Valid t (BTree.empty : BTree (K × V)) := by
  constructor
  case sound =>
    constructor
    case bound => exact Nat.zero_le _
    case arity => rfl
    case size => rfl
    case children =>
      intro c member
      cases member
  case rooted => exact Or.inl rfl
  case ascending => exact List.Pairwise.nil

theorem valid_growRoot (two : 2 ≤ t) {b : BTree (K × V)} (valid : Valid t b) :
    Valid t (b.growRoot t) ∧ entries (b.growRoot t) = entries b ∧
      (b.growRoot t).root.keys.length < 2 * t - 1 := by
  obtain ⟨h, root⟩ := b
  have bound : root.keys.length ≤ 2 * t - 1 := valid.sound.bound
  by_cases full : root.isFull t = true
  · obtain ⟨grown, split, sound, kept, one⟩ := splitChild_root two (sized h) valid.sound full
    have result : BTree.growRoot t ⟨h,root⟩ = ⟨h + 1,grown⟩ := by
      rw [BTree.growRoot, if_pos full]
      exact congrArg (BTree.mk (h + 1)) split
    have sorted : Ascending (contents (contents (inside h)) grown) := by
      rw [kept]
      exact valid.ascending
    have few : grown.keys.length < 2 * t - 1 := by omega
    rw [result]
    exact ⟨⟨sound, Or.inr (Nat.lt_of_lt_of_eq Nat.one_pos one.symm), sorted⟩, kept, few⟩
  · have result : BTree.growRoot t ⟨h,root⟩ = ⟨h,root⟩ := by
      rw [BTree.growRoot, if_neg full]
    have notFull : root.keys.length ≠ 2 * t - 1 := by
      intro equal
      exact full (by simp [Node.isFull, equal])
    have few : root.keys.length < 2 * t - 1 := by omega
    rw [result]
    exact ⟨valid, rfl, few⟩

theorem valid_promote (two : 2 ≤ t) {b : BTree (K × V)}
    (sound : Sound t (isLeaf b.height) (inside b.height) (good t b.height) b.root)
    (ascending : Ascending (entries b)) :
    Valid t b.promoteRootIfNecessary ∧ entries b.promoteRootIfNecessary = entries b := by
  obtain ⟨h, root⟩ := b
  cases h with
  | zero => exact ⟨⟨sound, Or.inl rfl, ascending⟩, rfl⟩
  | succ h =>
    obtain ⟨keys, size, children⟩ := root
    have arity : children.length = keys.length + 1 := sound.arity
    cases keys with
    | cons k ks => exact ⟨⟨sound, Or.inr (Nat.succ_pos _), ascending⟩, rfl⟩
    | nil =>
      cases children with
      | nil => cases arity
      | cons child others =>
        have only : others = [] := by
          apply List.length_eq_zero_iff.mp
          simpa using arity
        subst only
        have filled : Filled t (isLeaf h) (inside h) (good t h) child :=
          sound.children child List.mem_cons_self
        have enough := filled.1
        have same : entries ⟨h,child⟩ = entries ⟨h + 1,⟨[],size,[child]⟩⟩ := by
          have whole : entries ⟨h + 1,⟨[],size,[child]⟩⟩ = inside (h + 1) child := by
            simp [entries, contents]
          rw [whole]
          rfl
        refine ⟨⟨filled.2, Or.inr ?_, ?_⟩, same⟩
        · have positive : 0 < child.keys.length := by omega
          exact positive
        · have moved : Ascending (entries ⟨h,child⟩) := by
            rw [same]
            exact ascending
          exact moved

theorem valid_place (two : 2 ≤ t) (key : K) (f : Option V → V) {b : BTree (K × V)} (valid : Valid t b) :
    Valid t (b.place t key f).1 ∧ entries (b.place t key f).1 = place key f (entries b) ∧
      (b.place t key f).2 = if get (entries b) key = none then 1 else 0 := by
  obtain ⟨grown, same, room⟩ := valid_growRoot two valid
  have placed := placeLb_places two key f (b.growRoot t).height (b.growRoot t).root
    grown.sound room grown.ascending
  have result : entries (b.place t key f).1 = place key f (entries b) := by
    rw [← same]
    exact placed.entries
  refine ⟨?_, result, ?_⟩
  · constructor
    case sound => exact placed.sound
    case rooted => exact grown.rooted.imp id fun positive => positive.trans_le placed.grows
    case ascending =>
      rw [result]
      exact ascending_place valid.ascending key f
  · rw [← same]
    exact placed.count

theorem valid_erase (two : 2 ≤ t) (key : K) {b : BTree (K × V)} (valid : Valid t b) :
    Valid t (b.erase t key).1 ∧ entries (b.erase t key).1 = erase (entries b) key ∧
      (b.erase t key).2 = if get (entries b) key = none then 0 else 1 := by
  have erased := eraseLb_erases two key b.height b.root valid.sound valid.rooted
    valid.ascending
  have whole : entries ⟨b.height,(eraseLb t key b.height b.root).1⟩ = erase (entries b) key :=
    erased.entries
  have ascending := ascending_erase valid.ascending key
  rw [← whole] at ascending
  obtain ⟨promoted, same⟩ := valid_promote two erased.sound ascending
  exact ⟨promoted, same.trans whole, erased.count⟩

theorem find_entries {b : BTree (K × V)} (valid : Valid t b) (k : K) :
    b.find k = get (entries b) k :=
  search_get b.height valid.sound valid.ascending

section Verified

theorem verifyKeys_holds {C : Type} {inside : C → List (K × V)} {isRoot : Bool}
    {x : Node (K × V) C} (bound : x.keys.length ≤ 2 * t - 1)
    (enough : isRoot = true ∨ t - 1 ≤ x.keys.length)
    (sorted : Ascending (contents inside x)) : verifyKeys t isRoot x = true := by
  have keys : x.keys.Pairwise fun a b => ¬ b.1 < a.1 := by
    have ordered : Ascending x.keys :=
      List.Pairwise.sublist (keys_sublist_contents inside x) sorted
    exact List.Pairwise.imp (fun lower => lower.not_gt) ordered
  rcases enough with root | many
  · rw [verifyKeys, root, Bool.true_or, Bool.true_and]
    exact decide_eq_true keys
  · rw [verifyKeys, decide_eq_true many, decide_eq_true bound, Bool.and_self, Bool.or_true,
      Bool.true_and]
    exact decide_eq_true keys

theorem verifyAround_holds (two : 2 ≤ t) {C : Type} {leaf : Bool} {inside : C → List (K × V)}
    {good : C → Prop} {x : Node (K × V) (Node (K × V) C)}
    (sound : Sound t false (contents inside) (Filled t leaf inside good) x)
    (sorted : Ascending (contents (contents inside) x)) {i : Nat} (inRange : i < x.keys.length) :
    verifyAround x i = true := by
  obtain ⟨ks, k, ls, cs, y, s, ds, shape, atI, same, rest⟩ := sound.cutPair inRange
  generalize x.size = n at shape
  subst shape
  subst atI
  have atK : (ks ++ k :: ls)[ks.length]? = some k := get_window ks k ls
  have atY : (cs ++ y :: s :: ds)[ks.length]? = some y := by
    rw [← same]
    exact get_window cs y _
  have atS : (cs ++ y :: s :: ds)[ks.length + 1]? = some s := by
    rw [← same]
    exact get_next_window cs y s ds
  have filledY : Filled t leaf inside good y := sound.children y (by simp)
  have filledS : Filled t leaf inside good s := sound.children s (by simp)
  have enoughY := filledY.1
  have enoughS := filledS.1
  rw [contents_pair _ same] at sorted
  have pair := ascending_parts sorted
  simp only [verifyAround, atK, atY, atS, Bool.and_eq_true]
  constructor
  · rcases List.eq_nil_or_concat y.keys with none | ⟨before, last, ends⟩
    · rw [none, List.length_nil] at enoughY
      omega
    · rw [List.concat_eq_append] at ends
      have member : last ∈ contents inside y :=
        (keys_sublist_contents inside y).subset (by simp [ends])
      have lower := below_of_ascending pair last member
      simp [ends, lower.le]
  · cases starts : s.keys with
    | nil =>
      rw [starts, List.length_nil] at enoughS
      omega
    | cons first others =>
      have member : first ∈ contents inside s :=
        (keys_sublist_contents inside s).subset (by simp [starts])
      have higher := above_of_ascending pair first member
      simp [higher.le]

theorem verifyLeaf_holds {C : Type} {inside : C → List (K × V)} {good : C → Prop} {isRoot : Bool}
    {x : Node (K × V) C} (sound : Sound t true inside good x)
    (enough : isRoot = true ∨ t - 1 ≤ x.keys.length) (sorted : Ascending (contents inside x)) :
    verifyLeaf t isRoot x = true := by
  obtain ⟨keys, size, children⟩ := x
  have none : children = [] := List.length_eq_zero_iff.mp sound.arity
  subst none
  have counted : size = keys.length := by
    have whole := sound.size
    simpa [contents] using whole
  rw [verifyLeaf, verifyKeys_holds sound.bound enough sorted, Bool.true_and]
  exact decide_eq_true counted

theorem verifyInner_holds (two : 2 ≤ t) {C : Type} {leaf : Bool} {inside : C → List (K × V)}
    {good : C → Prop} {isRoot : Bool} {x : Node (K × V) (Node (K × V) C)}
    (sound : Sound t false (contents inside) (Filled t leaf inside good) x)
    (enough : isRoot = true ∨ t - 1 ≤ x.keys.length)
    (sorted : Ascending (contents (contents inside) x)) {verifyChild : Node (K × V) C → Bool}
    (holds : ∀ c, Filled t leaf inside good c → Ascending (contents inside c) →
      verifyChild c = true) : verifyInner t isRoot verifyChild x = true := by
  have arity : x.children.length = x.keys.length + 1 := sound.arity
  have around : (List.range x.keys.length).all (verifyAround x) = true := by
    rw [List.all_eq_true]
    intro i member
    exact verifyAround_holds two sound sorted (List.mem_range.mp member)
  have below : x.children.all verifyChild = true := by
    rw [List.all_eq_true]
    intro c member
    obtain ⟨j, here⟩ := List.mem_iff_getElem?.mp member
    obtain ⟨l, r, whole, _⟩ := child_window sound here
    rw [whole] at sorted
    exact holds c (sound.children c member) (ascending_parts sorted)
  have counted : x.size = x.keys.length + (x.children.map Node.size).sum := by
    rw [size_weave (fun c filled => filled.2.size) x.keys sound.children]
    exact sound.size
  have degrees : (isRoot || (decide (t ≤ x.children.length) &&
      decide (x.children.length = x.keys.length + 1) &&
      decide (x.children.length ≤ 2 * t))) = true := by
    rcases enough with root | many
    · rw [root, Bool.true_or]
    · have bound := sound.bound
      have least : t ≤ x.children.length := by omega
      have most : x.children.length ≤ 2 * t := by omega
      rw [decide_eq_true least, decide_eq_true arity, decide_eq_true most, Bool.and_self,
        Bool.and_self, Bool.or_true]
  rw [verifyInner, verifyKeys_holds sound.bound enough sorted, degrees, around, below,
    decide_eq_true counted]
  rfl

theorem verifyNode_holds (two : 2 ≤ t) (h : Nat) {isRoot : Bool}
    {x : Node (K × V) (Level (K × V) h)}
    (sound : Sound t (isLeaf h) (inside h) (good t h) x)
    (enough : isRoot = true ∨ t - 1 ≤ x.keys.length)
    (sorted : Ascending (contents (inside h) x)) : verifyNode t h isRoot x = true := by
  induction h generalizing isRoot with
  | zero => exact verifyLeaf_holds sound enough sorted
  | succ h ih =>
    exact verifyInner_holds two sound enough sorted fun c filled sortedC =>
      ih filled.2 (Or.inr filled.1) sortedC

theorem valid_verify (two : 2 ≤ t) {b : BTree (K × V)} (valid : Valid t b) :
    b.verify t = true :=
  verifyNode_holds two b.height valid.sound (Or.inl rfl) valid.ascending

end Verified

end TinyMqBTreeRuns
