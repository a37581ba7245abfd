import Mathlib.Data.List.FinRange
import Mathlib.Data.List.Perm.Basic
import Mathlib.Logic.Function.Basic

/- A queue of priority bands: FIFO inside a band, the highest band that holds
   anything goes first. `toList` is the order in which a queue drains. -/
namespace BandQueues
variable {n : Nat} {α β : Type}

structure BandQueue (n : Nat) (α : Type) where
  bands : Fin n → List α

def BandQueue.empty : BandQueue n α := ⟨fun _ => []⟩

def BandQueue.enqueue (q : BandQueue n α) (b : Fin n) (x : α) : BandQueue n α :=
  ⟨Function.update q.bands b (q.bands b ++ [x])⟩

def order (n : Nat) : List (Fin n) := (List.finRange n).reverse

def BandQueue.toList (q : BandQueue n α) : List α := (order n).flatMap q.bands

/-- The walk over the bands that takes the first message it finds. -/
def takeFrom (q : BandQueue n α) : List (Fin n) → Option (α × BandQueue n α)
  | [] => none
  | b :: rest =>
    match q.bands b with
    | [] => takeFrom q rest
    | x :: xs => some (x, ⟨Function.update q.bands b xs⟩)

def BandQueue.dequeue (q : BandQueue n α) : Option (α × BandQueue n α) := takeFrom q (order n)

def BandQueue.enqueueAll (band : α → Fin n) (q : BandQueue n α) (xs : List α) : BandQueue n α :=
  xs.foldl (fun q x => q.enqueue (band x) x) q

def BandQueue.map (f : α → β) (q : BandQueue n α) : BandQueue n β := ⟨fun b => (q.bands b).map f⟩

theorem order_nodup (n : Nat) : (order n).Nodup := List.nodup_reverse.mpr (List.nodup_finRange n)

theorem mem_order (b : Fin n) : b ∈ order n := by simp [order]

@[simp] theorem toList_empty : (BandQueue.empty : BandQueue n α).toList = [] := by
  simp [BandQueue.toList, BandQueue.empty]

theorem mem_toList {q : BandQueue n α} {x : α} : x ∈ q.toList ↔ ∃ b, x ∈ q.bands b := by
  simp [BandQueue.toList, mem_order]

theorem flatMap_update {bands : Fin n → List α} {b : Fin n} {xs : List α} {l : List (Fin n)}
    (absent : b ∉ l) : l.flatMap (Function.update bands b xs) = l.flatMap bands := by
  induction l with
  | nil => rfl
  | cons c l ih =>
    have other : c ≠ b := by
      intro same
      exact absent (by simp [same])
    have rest := ih fun inside => absent (List.mem_cons_of_mem c inside)
    simp [List.flatMap_cons, Function.update_of_ne other, rest]

theorem toList_split (b : Fin n) : ∃ before after, order n = before ++ b :: after ∧
    ∀ (q : BandQueue n α) (xs : List α),
      (⟨Function.update q.bands b xs⟩ : BandQueue n α).toList =
        before.flatMap q.bands ++ xs ++ after.flatMap q.bands := by
  obtain ⟨before, after, split⟩ := List.append_of_mem (mem_order b)
  have nodup := order_nodup n
  rw [split, List.nodup_append, List.nodup_cons] at nodup
  have left : b ∉ before := by
    intro inside
    exact nodup.2.2 b inside b (by simp) rfl
  refine ⟨before, after, split, ?_⟩
  intro q xs
  simp [BandQueue.toList, split, flatMap_update left, flatMap_update nodup.2.1.1]

theorem enqueue_perm (q : BandQueue n α) (b : Fin n) (x : α) :
    (q.enqueue b x).toList.Perm (x :: q.toList) := by
  obtain ⟨before, after, split, shape⟩ := @toList_split n α b
  have whole : q.toList = before.flatMap q.bands ++ (q.bands b ++ after.flatMap q.bands) := by
    simp [BandQueue.toList, split]
  unfold BandQueue.enqueue
  rw [shape, whole]
  have moved : (before.flatMap q.bands ++ (q.bands b ++ [x]) ++ after.flatMap q.bands) =
      (before.flatMap q.bands ++ q.bands b) ++ x :: after.flatMap q.bands := by simp
  rw [moved, ← List.append_assoc]
  exact List.perm_middle

theorem take_perm {q : BandQueue n α} {b : Fin n} {x : α} {rest : List α}
    (front : q.bands b = x :: rest) :
    q.toList.Perm (x :: (⟨Function.update q.bands b rest⟩ : BandQueue n α).toList) := by
  obtain ⟨before, after, split, shape⟩ := @toList_split n α b
  have whole : q.toList = before.flatMap q.bands ++ x :: (rest ++ after.flatMap q.bands) := by
    simp [BandQueue.toList, split, front]
  rw [whole, shape, List.append_assoc]
  exact List.perm_middle

theorem takeFrom_other {q r : BandQueue n α} {x : α} {l : List (Fin n)} {b : Fin n}
    (taken : takeFrom q l = some (x, r)) (absent : b ∉ l) : r.bands b = q.bands b := by
  induction l with
  | nil => simp [takeFrom] at taken
  | cons c l ih =>
    have other : b ≠ c := by
      intro equal
      exact absent (by simp [equal])
    unfold takeFrom at taken
    cases found : q.bands c with
    | nil =>
      rw [found] at taken
      exact ih taken fun inside => absent (List.mem_cons_of_mem c inside)
    | cons y ys =>
      rw [found] at taken
      obtain ⟨rfl, rfl⟩ := Prod.mk.inj (Option.some.inj taken)
      simp [Function.update_of_ne other]

theorem takeFrom_spec (q : BandQueue n α) {l : List (Fin n)} (nodup : l.Nodup) :
    match takeFrom q l with
    | none => l.flatMap q.bands = []
    | some (x, q') => l.flatMap q.bands = x :: l.flatMap q'.bands := by
  induction l with
  | nil => rfl
  | cons b l ih =>
    obtain ⟨absent, rest⟩ := List.nodup_cons.mp nodup
    have tail := ih rest
    unfold takeFrom
    cases here : q.bands b with
    | nil =>
      dsimp only
      cases taken : takeFrom q l with
      | none =>
        rw [taken] at tail
        simpa [List.flatMap_cons, here] using tail
      | some pair =>
        rw [taken] at tail
        have same := takeFrom_other (r := pair.2) (x := pair.1) taken absent
        simpa [List.flatMap_cons, here, same] using tail
    | cons y ys => simp [List.flatMap_cons, here, flatMap_update absent]

theorem dequeue_some {q q' : BandQueue n α} {x : α} (some : q.dequeue = some (x, q')) :
    q.toList = x :: q'.toList := by
  have spec := takeFrom_spec q (order_nodup n)
  unfold BandQueue.dequeue at some
  rw [some] at spec
  exact spec

theorem dequeue_none {q : BandQueue n α} (none : q.dequeue = none) : q.toList = [] := by
  have spec := takeFrom_spec q (order_nodup n)
  unfold BandQueue.dequeue at none
  rw [none] at spec
  exact spec

@[simp] theorem map_enqueue (f : α → β) (q : BandQueue n α) (b : Fin n) (x : α) :
    (q.enqueue b x).map f = (q.map f).enqueue b (f x) := by
  unfold BandQueue.map BandQueue.enqueue
  congr 1
  funext c
  by_cases same : c = b
  · subst same
    simp
  · simp [Function.update_of_ne same]

theorem toList_map (f : α → β) (q : BandQueue n α) : (q.map f).toList = q.toList.map f := by
  simp [BandQueue.toList, BandQueue.map, List.map_flatMap]

theorem enqueueAll_append (band : α → Fin n) (q : BandQueue n α) (xs ys : List α) :
    q.enqueueAll band (xs ++ ys) = (q.enqueueAll band xs).enqueueAll band ys := by
  simp [BandQueue.enqueueAll]

theorem enqueueAll_bands (band : α → Fin n) (q : BandQueue n α) (xs : List α) (b : Fin n) :
    (q.enqueueAll band xs).bands b = q.bands b ++ xs.filter (band · = b) := by
  induction xs generalizing q with
  | nil => simp [BandQueue.enqueueAll]
  | cons x xs ih =>
    have tail := ih (q.enqueue (band x) x)
    unfold BandQueue.enqueueAll at tail ⊢
    rw [List.foldl_cons, tail]
    by_cases same : band x = b
    · subst same
      simp [BandQueue.enqueue]
    · have other : b ≠ band x := fun equal => same equal.symm
      simp [BandQueue.enqueue, Function.update_of_ne other, same]

theorem filter_flatMap_bands {band : α → Fin n} {bands : Fin n → List α}
    (sorted : ∀ c, ∀ x ∈ bands c, band x = c) (b : Fin n) {l : List (Fin n)} (nodup : l.Nodup) :
    (l.flatMap bands).filter (band · = b) = if b ∈ l then bands b else [] := by
  induction l with
  | nil => rfl
  | cons c l ih =>
    obtain ⟨absent, rest⟩ := List.nodup_cons.mp nodup
    rw [List.flatMap_cons, List.filter_append, ih rest]
    by_cases same : b = c
    · subst same
      have all : (bands b).filter (band · = b) = bands b := by
        apply List.filter_eq_self.mpr
        intro x member
        simpa using sorted b x member
      simp [all, absent]
    · have none : (bands c).filter (band · = b) = [] := by
        apply List.filter_eq_nil_iff.mpr
        intro x member
        have := sorted c x member
        simpa [this] using fun equal => same equal.symm
      simp [none, same]

theorem drain_bands (band : α → Fin n) (xs : List α) (b : Fin n) :
    (BandQueue.empty.enqueueAll band xs).toList.filter (band · = b) = xs.filter (band · = b) := by
  have bands : ∀ c, (BandQueue.empty.enqueueAll band xs).bands c = xs.filter (band · = c) := by
    intro c
    simpa [BandQueue.empty] using enqueueAll_bands band BandQueue.empty xs c
  have sorted : ∀ c, ∀ x ∈ (BandQueue.empty.enqueueAll band xs).bands c, band x = c := by
    intro c x member
    rw [bands c] at member
    simpa using (List.mem_filter.mp member).2
  unfold BandQueue.toList
  rw [filter_flatMap_bands sorted b (order_nodup n), if_pos (mem_order b), bands b]

theorem enqueueAll_length (band : α → Fin n) (q : BandQueue n α) (xs : List α) :
    (q.enqueueAll band xs).toList.length = q.toList.length + xs.length := by
  induction xs generalizing q with
  | nil => rfl
  | cons x xs ih =>
    have tail := ih (q.enqueue (band x) x)
    have one := (enqueue_perm q (band x) x).length_eq
    unfold BandQueue.enqueueAll at tail ⊢
    rw [List.foldl_cons, tail, one]
    simp only [List.length_cons]
    omega

theorem enqueueAll_perm (band : α → Fin n) (q : BandQueue n α) (xs : List α) :
    (q.enqueueAll band xs).toList.Perm (q.toList ++ xs) := by
  induction xs generalizing q with
  | nil => simp [BandQueue.enqueueAll]
  | cons x xs ih =>
    have tail := ih (q.enqueue (band x) x)
    unfold BandQueue.enqueueAll at tail ⊢
    rw [List.foldl_cons]
    refine tail.trans ?_
    refine ((enqueue_perm q (band x) x).append_right xs).trans ?_
    exact List.perm_middle.symm

theorem enqueueAll_drained (band : α → Fin n) (q : BandQueue n α) (xs : List α) :
    q.enqueueAll band (BandQueue.empty.enqueueAll band xs).toList = q.enqueueAll band xs := by
  have same : ∀ b, (q.enqueueAll band (BandQueue.empty.enqueueAll band xs).toList).bands b =
      (q.enqueueAll band xs).bands b := by
    intro b
    rw [enqueueAll_bands, enqueueAll_bands, drain_bands]
  cases first : q.enqueueAll band (BandQueue.empty.enqueueAll band xs).toList with
  | mk bands =>
    cases second : q.enqueueAll band xs with
    | mk bands' =>
      rw [first, second] at same
      exact congrArg BandQueue.mk (funext same)

theorem enqueueAll_map {band : α → Fin n} {band' : β → Fin n} {f : α → β}
    (kept : ∀ x, band' (f x) = band x) (q : BandQueue n α) (xs : List α) :
    (q.enqueueAll band xs).map f = (q.map f).enqueueAll band' (xs.map f) := by
  induction xs generalizing q with
  | nil => rfl
  | cons x xs ih =>
    have tail := ih (q.enqueue (band x) x)
    unfold BandQueue.enqueueAll at tail ⊢
    rw [List.foldl_cons, List.map_cons, List.foldl_cons, tail, map_enqueue, kept]

theorem enqueueAll_drains (band : α → Fin n) (xs : List α) :
    (BandQueue.empty.enqueueAll band xs).toList =
      (order n).flatMap fun b => xs.filter (band · = b) := by
  have bands : (BandQueue.empty.enqueueAll band xs).bands = fun b => xs.filter (band · = b) := by
    funext b
    simpa [BandQueue.empty] using enqueueAll_bands band BandQueue.empty xs b
  unfold BandQueue.toList
  rw [bands]

theorem filter_enqueue_other (p : α → Bool) (q : BandQueue n α) (b : Fin n) {x : α}
    (other : p x = false) : (q.enqueue b x).toList.filter p = q.toList.filter p := by
  obtain ⟨before, after, split, shape⟩ := @toList_split n α b
  have whole : q.toList = before.flatMap q.bands ++ (q.bands b ++ after.flatMap q.bands) := by
    simp [BandQueue.toList, split]
  unfold BandQueue.enqueue
  rw [shape, whole]
  simp [List.filter_append, other]

def BandQueue.Sorted (band : α → Fin n) (q : BandQueue n α) : Prop :=
  ∀ b, ∀ x ∈ q.bands b, band x = b

theorem sorted_empty (band : α → Fin n) : (BandQueue.empty : BandQueue n α).Sorted band := by
  simp [BandQueue.Sorted, BandQueue.empty]

theorem sorted_enqueue {band : α → Fin n} {q : BandQueue n α} (sorted : q.Sorted band) (x : α) :
    (q.enqueue (band x) x).Sorted band := by
  intro b y member
  by_cases same : b = band x
  · subst same
    simp only [BandQueue.enqueue, Function.update_self, List.mem_append, List.mem_singleton] at member
    rcases member with old | rfl
    · exact sorted (band x) y old
    · rfl
  · simp only [BandQueue.enqueue, Function.update_of_ne same] at member
    exact sorted b y member

theorem enqueue_position {band : α → Fin n} {q : BandQueue n α} (sorted : q.Sorted band) (x : α) :
    ∃ front back, q.toList = front ++ back ∧ (q.enqueue (band x) x).toList = front ++ x :: back ∧
      ∀ y ∈ back, band y ≠ band x := by
  obtain ⟨before, after, split, shape⟩ := @toList_split n α (band x)
  refine ⟨before.flatMap q.bands ++ q.bands (band x), after.flatMap q.bands, ?_, ?_, ?_⟩
  · simp [BandQueue.toList, split]
  · unfold BandQueue.enqueue
    rw [shape]
    simp
  · intro y inside
    obtain ⟨b, member, here⟩ := List.mem_flatMap.mp inside
    rw [sorted b y here]
    have nodup := order_nodup n
    rw [split, List.nodup_append, List.nodup_cons] at nodup
    rintro rfl
    exact nodup.2.1.1 member

theorem takeFrom_sublist {q r : BandQueue n α} {x : α} {l : List (Fin n)}
    (taken : takeFrom q l = some (x, r)) (b : Fin n) : (r.bands b).Sublist (q.bands b) := by
  induction l with
  | nil => simp [takeFrom] at taken
  | cons c l ih =>
    unfold takeFrom at taken
    cases found : q.bands c with
    | nil =>
      rw [found] at taken
      exact ih taken
    | cons y ys =>
      rw [found] at taken
      obtain ⟨rfl, rfl⟩ := Prod.mk.inj (Option.some.inj taken)
      by_cases same : b = c
      · subst same
        simp [found]
      · simp [Function.update_of_ne same]

theorem sorted_dequeue {band : α → Fin n} {q r : BandQueue n α} {x : α} (sorted : q.Sorted band)
    (taken : q.dequeue = some (x, r)) : r.Sorted band :=
  fun b y member => sorted b y ((takeFrom_sublist taken b).subset member)

theorem toList_descends {band : α → Fin n} {q : BandQueue n α} (sorted : q.Sorted band) :
    q.toList.Pairwise fun x y => band y ≤ band x := by
  unfold BandQueue.toList
  rw [List.pairwise_flatMap]
  constructor
  · intro b _
    refine List.pairwise_of_forall_mem_list ?_
    intro x here y there
    rw [sorted b x here, sorted b y there]
  · have down : (order n).Pairwise fun a b => b < a := by
      unfold order
      rw [List.pairwise_reverse]
      exact List.pairwise_lt_finRange n
    refine down.imp ?_
    intro a b less x here y there
    rw [sorted a x here, sorted b y there]
    exact le_of_lt less

theorem sorted_enqueueAll (band : α → Fin n) {q : BandQueue n α} (sorted : q.Sorted band)
    (xs : List α) : (q.enqueueAll band xs).Sorted band := by
  induction xs generalizing q with
  | nil => exact sorted
  | cons x xs ih => exact ih (sorted_enqueue sorted x)

/-- Another order of the same messages: in every band those of one lane keep their order. -/
def Rearranged {κ : Type} [DecidableEq κ] (lane : α → κ) (q q' : BandQueue n α) : Prop :=
  ∀ b k, (q'.bands b).filter (lane · = k) = (q.bands b).filter (lane · = k)

instance [DecidableEq α] (lane : α → Bool) (q q' : BandQueue n α) :
    Decidable (Rearranged lane q q') :=
  inferInstanceAs (Decidable (∀ _ _, _))

section Rearranged
variable {κ : Type} [DecidableEq κ] {lane : α → κ} {q q' : BandQueue n α}

theorem Rearranged.bands (same : Rearranged lane q q') (b : Fin n) :
    (q'.bands b).Perm (q.bands b) := by
  classical
  rw [List.perm_iff_count]
  intro x
  have lanes := congrArg (List.count x) (same b (lane x))
  rw [List.count_filter (by simp), List.count_filter (by simp)] at lanes
  exact lanes

theorem Rearranged.perm (same : Rearranged lane q q') : q'.toList.Perm q.toList :=
  List.Perm.flatMap_left _ fun b _ => same.bands b

theorem Rearranged.filter (same : Rearranged lane q q') (k : κ) :
    q'.toList.filter (lane · = k) = q.toList.filter (lane · = k) := by
  unfold BandQueue.toList
  rw [List.filter_flatMap, List.filter_flatMap]
  simp only [fun b => same b k]

theorem Rearranged.sorted {band : α → Fin n} (same : Rearranged lane q q') (sorted : q.Sorted band) :
    q'.Sorted band :=
  fun b x inside => sorted b x ((same.bands b).mem_iff.mp inside)

theorem Rearranged.pairwise {R : α → α → Prop} {band : α → Fin n} (same : Rearranged lane q q')
    (sorted : q.Sorted band) (loose : ∀ x y, (band x = band y → lane x = lane y → R x y) → R x y)
    (related : q.toList.Pairwise R) : q'.toList.Pairwise R := by
  unfold BandQueue.toList
  rw [List.pairwise_flatMap]
  constructor
  · intro b member
    rw [List.pairwise_iff_forall_sublist]
    intro x y part
    refine loose x y fun _ one => ?_
    have kept : [x, y].Sublist ((q'.bands b).filter (lane · = lane y)) := by
      simpa [one] using part.filter (lane · = lane y)
    rw [same b (lane y)] at kept
    have inBand : (q.bands b).Pairwise R := (List.pairwise_flatMap.mp related).1 b member
    exact List.pairwise_iff_forall_sublist.mp inBand (kept.trans List.filter_sublist)
  · refine (order_nodup n).imp ?_
    intro a b apart x here y there
    refine loose x y fun equal _ => absurd ?_ apart
    rw [← same.sorted sorted a x here, ← same.sorted sorted b y there]
    exact equal

end Rearranged

theorem descending_unique {band : α → Fin n} {xs ys : List α}
    (down : xs.Pairwise fun x y => band y ≤ band x) (down' : ys.Pairwise fun x y => band y ≤ band x)
    (same : ∀ b, xs.filter (band · = b) = ys.filter (band · = b)) : xs = ys := by
  induction xs generalizing ys with
  | nil =>
    cases ys with
    | nil => rfl
    | cons y ys =>
      have here := same (band y)
      simp at here
  | cons x xs ih =>
    cases ys with
    | nil =>
      have here := same (band x)
      simp at here
    | cons y ys =>
      have first : x ∈ y :: ys := by
        have inside : x ∈ (y :: ys).filter (band · = band x) := by
          rw [← same]
          simp
        exact (List.mem_filter.mp inside).1
      have first' : y ∈ x :: xs := by
        have inside : y ∈ (x :: xs).filter (band · = band y) := by
          rw [same]
          simp
        exact (List.mem_filter.mp inside).1
      have below : band x ≤ band y := by
        rcases List.mem_cons.mp first with equal | later
        · rw [equal]
        · exact (List.pairwise_cons.mp down').1 x later
      have above : band y ≤ band x := by
        rcases List.mem_cons.mp first' with equal | later
        · rw [equal]
        · exact (List.pairwise_cons.mp down).1 y later
      have bands : band x = band y := le_antisymm below above
      have heads := same (band y)
      simp only [bands, decide_true, List.filter_cons_of_pos, List.cons.injEq] at heads
      obtain ⟨rfl, -⟩ := heads
      congr 1
      refine ih (List.pairwise_cons.mp down).2 (List.pairwise_cons.mp down').2 ?_
      intro b
      have tails := same b
      by_cases here : band x = b
      · simpa [here] using tails
      · simpa [here] using tails

/- What goes through a queue comes out in the same order exactly when the bands descend. -/
theorem drain_same_iff (band : α → Fin n) (xs : List α) :
    (BandQueue.empty.enqueueAll band xs).toList = xs ↔ xs.Pairwise fun x y => band y ≤ band x := by
  have down := toList_descends (sorted_enqueueAll band (sorted_empty band) xs)
  constructor
  · intro same
    rwa [same] at down
  · intro down'
    exact descending_unique down down' (drain_bands band xs)

theorem empty_of_toList {q : BandQueue n α} (nothing : q.toList = []) : q = BandQueue.empty := by
  obtain ⟨bands⟩ := q
  have each : bands = fun _ => [] := by
    funext b
    rw [List.eq_nil_iff_forall_not_mem]
    intro x inside
    have member : x ∈ (⟨bands⟩ : BandQueue n α).toList := mem_toList.mpr ⟨b, inside⟩
    rw [nothing] at member
    cases member
  rw [each]
  rfl

end BandQueues
