import Mathlib.Data.List.Basic
import Mathlib.Logic.Function.Basic

/- Intrusive doubly linked lists: the links lie in the nodes, with the owner of the
   list a node is in, and each owner has a head and a tail. The owners share one
   heap of nodes. `Represents` is the list every owner has, node by node. -/
namespace LinkedChains
variable {A O σ : Type*}

structure Link (A O : Type*) where
  prev : Option A := none
  next : Option A := none
  owner : Option O := none

structure Chains (A O : Type*) where
  link : A → Link A O := fun _ => {}
  head : O → Option A := fun _ => none
  tail : O → Option A := fun _ => none

section Operations
variable [DecidableEq A] [DecidableEq O]

def Chains.setNext (c : Chains A O) (a : A) (next : Option A) : Chains A O :=
  { c with link := Function.update c.link a { c.link a with next := next } }

def Chains.setPrev (c : Chains A O) (a : A) (prev : Option A) : Chains A O :=
  { c with link := Function.update c.link a { c.link a with prev := prev } }

def Chains.setOwner (c : Chains A O) (a : A) (owner : Option O) : Chains A O :=
  { c with link := Function.update c.link a { c.link a with owner := owner } }

def Chains.setHead (c : Chains A O) (o : O) (a : Option A) : Chains A O :=
  { c with head := Function.update c.head o a }

def Chains.setTail (c : Chains A O) (o : O) (a : Option A) : Chains A O :=
  { c with tail := Function.update c.tail o a }

/-- A node goes behind the tail. Its own `next` is taken to be null. -/
def Chains.append (c : Chains A O) (o : O) (a : A) : Chains A O :=
  let c := match c.tail o with
    | some last => (c.setNext last (some a)).setPrev a (some last)
    | none => (c.setPrev a none).setHead o (some a)
  (c.setTail o (some a)).setOwner a (some o)

/-- A node leaves the list of its owner from any position; nothing happens on
    behalf of another owner. -/
def Chains.unlink (c : Chains A O) (o : O) (a : A) : Chains A O :=
  if (c.link a).owner = some o then
    let prev := (c.link a).prev
    let next := (c.link a).next
    let c := c.setNext a none
    let c := match prev with
      | some before => c.setNext before next
      | none => c.setHead o next
    let c := match next with
      | some after => c.setPrev after prev
      | none => c.setTail o prev
    (c.setPrev a none).setOwner a none
  else c

/-- All fields of the link are reset. -/
def Chains.detach (c : Chains A O) (a : A) : Chains A O :=
  ((c.setNext a none).setPrev a none).setOwner a none

/-- The loop that empties a list: each node is detached before it is visited. -/
def drain (visit : σ → A → Option σ) : Nat → Chains A O → σ → Option A → Option (Chains A O × σ)
  | _, c, s, none => some (c, s)
  | 0, _, _, some _ => none
  | fuel + 1, c, s, some a =>
    match visit s a with
    | none => none
    | some s => drain visit fuel (c.detach a) s (c.link a).next

/-- The list is given up by its owner and emptied. -/
def Chains.release (visit : σ → A → Option σ) (fuel : Nat) (c : Chains A O) (o : O) (s : σ) :
    Option (Chains A O × σ) :=
  drain visit fuel ((c.setHead o none).setTail o none) s (c.head o)

end Operations

def Chains.walk (c : Chains A O) : Nat → Option A → List A
  | _, none => []
  | 0, some _ => []
  | n + 1, some a => a :: c.walk n (c.link a).next

/-- Every owner has its list in the heap, and no other node is linked. -/
structure Represents (c : Chains A O) (lists : O → List A) : Prop where
  head : ∀ o, c.head o = (lists o).head?
  tail : ∀ o, c.tail o = (lists o).getLast?
  linked : ∀ o front a back, lists o = front ++ a :: back →
    c.link a = ⟨front.getLast?, back.head?, some o⟩
  free : ∀ a, (∀ o, a ∉ lists o) → c.link a = {}
  once : ∀ o, (lists o).Nodup

theorem Represents.congr {c : Chains A O} {lists lists' : O → List A} (right : Represents c lists)
    (same : ∀ o, lists' o = lists o) : Represents c lists' := by
  rw [funext same]
  exact right

theorem represents_empty : Represents ({} : Chains A O) (fun _ => []) := by
  refine ⟨fun _ => rfl, fun _ => rfl, ?_, fun _ _ => rfl, fun _ => List.nodup_nil⟩
  intro o front a back split
  cases front <;> cases split

section Represents
variable {c : Chains A O} {lists : O → List A} {o : O} {a : A}

theorem Represents.owner_iff (right : Represents c lists) :
    (c.link a).owner = some o ↔ a ∈ lists o := by
  constructor
  · intro owned
    by_cases somewhere : ∃ o, a ∈ lists o
    · obtain ⟨o', member⟩ := somewhere
      obtain ⟨front, back, split⟩ := List.append_of_mem member
      rw [right.linked o' front a back split] at owned
      cases owned
      exact member
    · rw [right.free a fun o' member => somewhere ⟨o', member⟩] at owned
      cases owned
  · intro member
    obtain ⟨front, back, split⟩ := List.append_of_mem member
    rw [right.linked o front a back split]

theorem Represents.apart (right : Represents c lists) {o' : O} (one : a ∈ lists o)
    (other : a ∈ lists o') : o = o' := by
  have first := right.owner_iff.mpr one
  rw [right.owner_iff.mpr other] at first
  cases first
  rfl

theorem Represents.head_prev (right : Represents c lists) (first : c.head o = some a) :
    (c.link a).prev = none := by
  rw [right.head o] at first
  obtain ⟨back, split⟩ := List.head?_eq_some_iff.mp first
  rw [right.linked o [] a back split]
  rfl

theorem Represents.inverse (right : Represents c lists) (member : a ∈ lists o) (b : A) :
    (c.link a).next = some b ↔ b ∈ lists o ∧ (c.link b).prev = some a := by
  obtain ⟨front, back, split⟩ := List.append_of_mem member
  rw [right.linked o front a back split]
  constructor
  · intro next
    obtain ⟨rest, back_⟩ := List.head?_eq_some_iff.mp next
    have later : lists o = (front ++ [a]) ++ b :: rest := by
      rw [split, back_]
      simp
    refine ⟨by simp [later], ?_⟩
    rw [right.linked o _ b rest later]
    simp
  · rintro ⟨inside, before⟩
    obtain ⟨front', back', split'⟩ := List.append_of_mem inside
    rw [right.linked o front' b back' split'] at before
    obtain ⟨earlier, front_⟩ := List.getLast?_eq_some_iff.mp before
    have whole : lists o = earlier ++ a :: (b :: back') := by
      rw [split', front_]
      simp
    have same := right.linked o earlier a (b :: back') whole
    rw [right.linked o front a back split] at same
    exact congrArg Link.next same

theorem walk_next {l : List A} {n : Nat} (enough : l.length ≤ n)
    (next : ∀ front a back, l = front ++ a :: back → (c.link a).next = back.head?) :
    c.walk n l.head? = l := by
  induction l generalizing n with
  | nil => cases n <;> rfl
  | cons a rest ih =>
    cases n with
    | zero => simp at enough
    | succ n =>
      rw [List.head?_cons, Chains.walk, next [] a rest rfl]
      rw [ih (Nat.le_of_succ_le_succ enough)]
      intro front b back split
      exact next (a :: front) b back (by rw [split]; rfl)

theorem Represents.walk (right : Represents c lists) {n : Nat} (enough : (lists o).length ≤ n) :
    c.walk n (c.head o) = lists o := by
  rw [right.head o]
  apply walk_next enough
  intro front a back split
  rw [right.linked o front a back split]

end Represents

section Fields
variable [DecidableEq A]

@[simp] theorem setNext_link (c : Chains A O) (a : A) (next : Option A) (x : A) :
    (c.setNext a next).link x = if x = a then { c.link x with next := next } else c.link x := by
  unfold Chains.setNext
  by_cases same : x = a <;> simp [same]

@[simp] theorem setPrev_link (c : Chains A O) (a : A) (prev : Option A) (x : A) :
    (c.setPrev a prev).link x = if x = a then { c.link x with prev := prev } else c.link x := by
  unfold Chains.setPrev
  by_cases same : x = a <;> simp [same]

@[simp] theorem setOwner_link (c : Chains A O) (a : A) (owner : Option O) (x : A) :
    (c.setOwner a owner).link x = if x = a then { c.link x with owner := owner } else c.link x := by
  unfold Chains.setOwner
  by_cases same : x = a <;> simp [same]

theorem detach_link (c : Chains A O) (a x : A) :
    (c.detach a).link x = if x = a then {} else c.link x := by
  by_cases same : x = a <;> simp [Chains.detach, same]

section Loop
variable {visit : σ → A → Option σ} {c : Chains A O}

theorem drain_next {l : List A} {fuel : Nat} (enough : l.length ≤ fuel) (once : l.Nodup)
    (next : ∀ front a back, l = front ++ a :: back → (c.link a).next = back.head?) (s : σ) :
    drain visit fuel c s l.head? =
      (l.foldlM visit s).map fun s' => (l.foldl Chains.detach c, s') := by
  induction l generalizing c fuel s with
  | nil => cases fuel <;> rfl
  | cons a rest ih =>
    cases fuel with
    | zero => simp at enough
    | succ fuel =>
      have absent := (List.nodup_cons.mp once).1
      rw [List.head?_cons, drain, List.foldlM_cons]
      cases visited : visit s a with
      | none => rfl
      | some s' =>
        have later : ∀ front b back, rest = front ++ b :: back →
            ((c.detach a).link b).next = back.head? := by
          intro front b back split
          have other : b ≠ a := by
            rintro rfl
            exact absent (by simp [split])
          rw [detach_link, if_neg other]
          exact next (a :: front) b back (by rw [split]; rfl)
        rw [next [] a rest rfl]
        exact ih (Nat.le_of_succ_le_succ enough) (List.nodup_cons.mp once).2 later s'

theorem detachAll_link (c : Chains A O) (l : List A) (x : A) :
    (l.foldl Chains.detach c).link x = if x ∈ l then {} else c.link x := by
  induction l generalizing c with
  | nil => simp
  | cons a rest ih =>
    rw [List.foldl_cons, ih, detach_link]
    by_cases here : x = a <;> by_cases later : x ∈ rest <;> simp [here, later]

theorem detachAll_ends (c : Chains A O) (l : List A) :
    (l.foldl Chains.detach c).head = c.head ∧ (l.foldl Chains.detach c).tail = c.tail := by
  induction l generalizing c with
  | nil => exact ⟨rfl, rfl⟩
  | cons a rest ih => exact ih (c.detach a)

end Loop

end Fields

section Lists
variable [DecidableEq O] {c c' : Chains A O} {lists : O → List A} {o : O} {a : A}

theorem Represents.replace (right : Represents c lists) {l : List A}
    (head : c'.head = Function.update c.head o l.head?)
    (tail : c'.tail = Function.update c.tail o l.getLast?)
    (linked : ∀ front a back, l = front ++ a :: back →
      c'.link a = ⟨front.getLast?, back.head?, some o⟩)
    (others : ∀ o', o' ≠ o → ∀ a ∈ lists o', c'.link a = c.link a)
    (free : ∀ a, a ∉ l → (∀ o', o' ≠ o → a ∉ lists o') → c'.link a = {}) (once : l.Nodup) :
    Represents c' (Function.update lists o l) := by
  refine
    { head := ?head
      tail := ?tail
      linked := ?linked
      free := ?free
      once := ?once }
  case head =>
    intro o'
    rw [head]
    by_cases here : o' = o
    · simp [here]
    · simp [here, right.head o']
  case tail =>
    intro o'
    rw [tail]
    by_cases here : o' = o
    · simp [here]
    · simp [here, right.tail o']
  case linked =>
    intro o' front x back split
    by_cases here : o' = o
    · subst here
      rw [Function.update_self] at split
      exact linked front x back split
    · rw [Function.update_of_ne here] at split
      rw [others o' here x (by simp [split]), right.linked o' front x back split]
  case free =>
    intro x nowhere
    refine free x ?_ ?_
    · simpa using nowhere o
    · intro o' other
      simpa [Function.update_of_ne other] using nowhere o'
  case once =>
    intro o'
    by_cases here : o' = o
    · rw [here, Function.update_self]
      exact once
    · rw [Function.update_of_ne here]
      exact right.once o'

theorem last_iff {front back : List A} {x : A} (once : (front ++ x :: back).Nodup) :
    some x = (front ++ x :: back).getLast? ↔ back = [] := by
  cases back with
  | nil => simp
  | cons y rest =>
    simp only [List.getLast?_append, List.getLast?_cons_cons, reduceCtorEq, iff_false]
    intro last
    have behind := (List.nodup_cons.mp (List.nodup_append.mp once).2.1).1
    cases here : (y :: rest).getLast? with
    | none => simp at here
    | some z =>
      rw [here] at last
      simp only [Option.some_or, Option.some.injEq] at last
      rw [last] at behind
      exact behind (List.mem_of_getLast? here)

/-- A node of a list without repetitions, and what is before and behind it. -/
structure Parts (l front : List A) (a : A) (back : List A) : Prop where
  split : l = front ++ a :: back
  frontOnce : front.Nodup
  backOnce : back.Nodup
  before : a ∉ front
  behind : a ∉ back
  apart : ∀ x ∈ front, x ∉ back

theorem parts_of_mem {l : List A} (once : l.Nodup) (member : a ∈ l) :
    ∃ front back, Parts l front a back := by
  obtain ⟨front, back, split⟩ := List.append_of_mem member
  obtain ⟨frontOnce, tailOnce, apart⟩ := List.nodup_append.mp (split ▸ once)
  obtain ⟨absent, backOnce⟩ := List.nodup_cons.mp tailOnce
  refine ⟨front, back, split, frontOnce, backOnce, ?_, absent, ?_⟩
  · exact fun inside => apart a inside a (by simp) rfl
  · exact fun x here there => apart x here x (List.mem_cons_of_mem a there) rfl

variable [DecidableEq A]

theorem append_link (unlinked : c.link a = {}) (new : c.tail o ≠ some a) (x : A) :
    (c.append o a).link x =
      if x = a then ⟨c.tail o, none, some o⟩
      else if some x = c.tail o then { c.link x with next := some a }
      else c.link x := by
  unfold Chains.append
  cases last : c.tail o with
  | none => by_cases same : x = a <;> simp [same, unlinked, Chains.setTail, Chains.setHead]
  | some t =>
    have other : t ≠ a := by
      rintro rfl
      exact new last
    by_cases same : x = a
    · subst same
      simp [unlinked, Ne.symm other, Chains.setTail]
    · by_cases old : x = t <;> simp [same, old, other, Chains.setTail]

theorem append_ends (c : Chains A O) (o : O) (a : A) :
    (c.append o a).head = (if c.tail o = none then Function.update c.head o (some a) else c.head) ∧
      (c.append o a).tail = Function.update c.tail o (some a) := by
  unfold Chains.append
  cases c.tail o <;> exact ⟨rfl, rfl⟩

theorem Represents.append (right : Represents c lists) (new : ∀ o, a ∉ lists o) (o : O) :
    Represents (c.append o a) (Function.update lists o (lists o ++ [a])) := by
  have member : ∀ {x}, some x = c.tail o → x ∈ lists o := by
    intro x last
    rw [right.tail o] at last
    exact List.mem_of_getLast? last.symm
  have links := append_link (right.free a new) fun last => new o (member last.symm)
  obtain ⟨head, tail⟩ := append_ends c o a
  refine right.replace ?_ ?_ ?_ ?_ ?_ ?_
  · rw [head, right.tail o]
    cases whole : lists o with
    | nil => rfl
    | cons b rest =>
      have same : c.head o = some b := by
        rw [right.head o, whole]
        rfl
      rw [List.cons_append, List.head?_cons, ← same, Function.update_eq_self, List.getLast?_cons]
      rfl
  · rw [tail]
    simp
  · intro front x back split
    rcases List.eq_nil_or_concat back with rfl | ⟨back, b, rfl⟩
    · obtain ⟨rfl, last⟩ := List.append_inj' split rfl
      cases last
      rw [links, if_pos rfl, right.tail o]
      rfl
    · have parts : lists o ++ [a] = (front ++ x :: back) ++ [b] := by
        rw [split]
        simp
      obtain ⟨old, last⟩ := List.append_inj' parts rfl
      cases last
      have apart : x ≠ a := by
        rintro rfl
        exact new o (by simp [old])
      have before := right.linked o front x back old
      have last := last_iff (old ▸ right.once o)
      rw [links, if_neg apart, right.tail o, old]
      cases back with
      | nil => simp [before]
      | cons y rest =>
        rw [if_neg fun here => absurd (last.mp here) (by simp), before]
        rfl
  · intro o' other x inside
    have apart : x ≠ a := by
      rintro rfl
      exact new o' inside
    have elsewhere : some x ≠ c.tail o := fun last => other (right.apart inside (member last))
    rw [links, if_neg apart, if_neg elsewhere]
  · intro x outside nowhere
    simp only [List.mem_append, List.mem_singleton, not_or] at outside
    rw [links, if_neg outside.2, if_neg fun last => outside.1 (member last)]
    apply right.free
    intro o'
    by_cases here : o' = o
    · rw [here]
      exact outside.1
    · exact nowhere o' here
  · refine List.nodup_append.mpr ⟨right.once o, List.pairwise_singleton _ a, ?_⟩
    intro x inside y last
    rw [List.mem_singleton.mp last]
    rintro rfl
    exact new o inside

theorem unlink_link {prev next : Option A} (link : c.link a = ⟨prev, next, some o⟩)
    (behind : prev ≠ some a) (ahead : next ≠ some a) (apart : ∀ x, some x = prev → some x ≠ next)
    (x : A) :
    (c.unlink o a).link x =
      if x = a then {}
      else if some x = prev then { c.link x with next := next }
      else if some x = next then { c.link x with prev := prev }
      else c.link x := by
  unfold Chains.unlink
  rw [link, if_pos rfl]
  by_cases same : x = a
  · subst same
    cases prev <;> cases next <;> simp_all [Chains.setHead, Chains.setTail, eq_comm]
  · cases prev <;> cases next <;> simp [same, Chains.setHead, Chains.setTail]
    · rename_i p n
      by_cases first : x = n <;> by_cases last : x = p <;> simp_all

theorem unlink_ends {prev next : Option A} (link : c.link a = ⟨prev, next, some o⟩) :
    (c.unlink o a).head = (if prev = none then Function.update c.head o next else c.head) ∧
      (c.unlink o a).tail = (if next = none then Function.update c.tail o prev else c.tail) := by
  unfold Chains.unlink
  rw [link, if_pos rfl]
  cases prev <;> cases next <;> exact ⟨rfl, rfl⟩

theorem filter_absent {l : List A} (absent : a ∉ l) : l.filter (· ≠ a) = l := by
  apply List.filter_eq_self.mpr
  intro x inside
  simp only [ne_eq, decide_eq_true_eq]
  rintro rfl
  exact absent inside

section Unlink
variable {front back : List A}

theorem Parts.filter {l : List A} (parts : Parts l front a back) :
    l.filter (· ≠ a) = front ++ back := by
  rw [parts.split, List.filter_append, List.filter_cons_of_neg (by simp),
    filter_absent parts.behind, filter_absent parts.before]

theorem Represents.unlink_links (right : Represents c lists) (parts : Parts (lists o) front a back)
    (x : A) :
    (c.unlink o a).link x =
      if x = a then {}
      else if some x = front.getLast? then { c.link x with next := back.head? }
      else if some x = back.head? then { c.link x with prev := front.getLast? }
      else c.link x := by
  refine unlink_link (right.linked o front a back parts.split) ?_ ?_ ?_ x
  · exact fun last => parts.before (List.mem_of_getLast? last)
  · exact fun first => parts.behind (List.mem_of_mem_head? first)
  · intro y last first
    exact parts.apart y (List.mem_of_getLast? last.symm) (List.mem_of_mem_head? first.symm)

theorem Represents.unlink_behind (right : Represents c lists)
    (parts : Parts (lists o) front a back) {mid b : List A} {x : A} (there : back = mid ++ x :: b) :
    (c.unlink o a).link x = ⟨(front ++ mid).getLast?, b.head?, some o⟩ := by
  have inside : x ∈ back := by simp [there]
  have before := right.linked o (front ++ a :: mid) x b (by rw [parts.split, there]; simp)
  have other : x ≠ a := by
    rintro rfl
    exact parts.behind inside
  have late : some x ≠ front.getLast? :=
    fun last => parts.apart x (List.mem_of_getLast? last.symm) inside
  rw [right.unlink_links parts, if_neg other, if_neg late, before]
  cases mid with
  | nil => simp [there]
  | cons y mid =>
    have first : some x ≠ back.head? := by
      rw [there]
      rintro ⟨⟩
      have once := parts.backOnce
      rw [there] at once
      exact (List.nodup_cons.mp once).1 (by simp)
    rw [if_neg first]
    simp [List.getLast?_append, List.getLast?_cons_cons]

theorem Represents.unlink_before (right : Represents c lists)
    (parts : Parts (lists o) front a back) {f mid : List A} {x : A} (here : front = f ++ x :: mid) :
    (c.unlink o a).link x = ⟨f.getLast?, (mid ++ back).head?, some o⟩ := by
  have inside : x ∈ front := by simp [here]
  have before := right.linked o f x (mid ++ a :: back) (by rw [parts.split, here]; simp)
  have other : x ≠ a := by
    rintro rfl
    exact parts.before inside
  have early : some x ≠ back.head? :=
    fun first => parts.apart x inside (List.mem_of_mem_head? first.symm)
  have last := last_iff (here ▸ parts.frontOnce)
  rw [right.unlink_links parts, if_neg other, if_neg early, before, here]
  cases mid with
  | nil => simp
  | cons z mid =>
    rw [if_neg fun end_ => absurd (last.mp end_) (by simp)]
    rfl

theorem Represents.unlink (right : Represents c lists) (o : O) (a : A) :
    Represents (c.unlink o a) (Function.update lists o ((lists o).filter (· ≠ a))) := by
  by_cases member : a ∈ lists o
  · obtain ⟨front, back, parts⟩ := parts_of_mem (right.once o) member
    obtain ⟨head, tail⟩ := unlink_ends (right.linked o front a back parts.split)
    have links := right.unlink_links parts
    rw [parts.filter]
    refine right.replace ?_ ?_ ?_ ?_ ?_ ?_
    · rw [head]
      cases front with
      | nil => rfl
      | cons b front =>
        have same : c.head o = some b := by
          rw [right.head o, parts.split]
          rfl
        simp [← same]
    · rw [tail]
      cases back with
      | nil => simp
      | cons b back =>
        have same : c.tail o = (front ++ b :: back).getLast? := by
          rw [right.tail o, parts.split]
          simp
        simp only [List.head?_cons, reduceCtorEq, if_false, ← same, Function.update_eq_self]
    · intro f x b whole
      rcases List.append_eq_append_iff.mp whole with ⟨mid, rfl, there⟩ | ⟨mid, here, rest⟩
      · exact right.unlink_behind parts there
      · cases mid with
        | nil =>
          have there : back = [] ++ x :: b := rest.symm
          have last := right.unlink_behind parts there
          rw [List.append_nil] at here last
          rw [here] at last
          exact last
        | cons y mid =>
          obtain ⟨rfl, rfl⟩ := List.cons.inj rest
          exact right.unlink_before parts here
    · intro o' other x inside
      have elsewhere : x ∉ lists o := fun here => other (right.apart inside here)
      rw [parts.split] at elsewhere
      simp only [List.mem_append, List.mem_cons, not_or] at elsewhere
      rw [links, if_neg elsewhere.2.1,
        if_neg fun last => elsewhere.1 (List.mem_of_getLast? last.symm),
        if_neg fun first => elsewhere.2.2 (List.mem_of_mem_head? first.symm)]
    · intro x gone nowhere
      simp only [List.mem_append, not_or] at gone
      rw [links]
      split_ifs with same last first
      · rfl
      · exact absurd (List.mem_of_getLast? last.symm) gone.1
      · exact absurd (List.mem_of_mem_head? first.symm) gone.2
      · apply right.free
        intro o'
        by_cases here : o' = o
        · rw [here, parts.split]
          simp [gone, same]
        · exact nowhere o' here
    · refine List.nodup_append.mpr ⟨parts.frontOnce, parts.backOnce, ?_⟩
      rintro x here y there rfl
      exact parts.apart x here there
  · have foreign : ¬ (c.link a).owner = some o := fun owned => member (right.owner_iff.mp owned)
    rw [Chains.unlink, if_neg foreign, filter_absent member, Function.update_eq_self]
    exact right

end Unlink

theorem Represents.release (right : Represents c lists) (visit : σ → A → Option σ) {o : O}
    {fuel : Nat} (enough : (lists o).length ≤ fuel) (s : σ) :
    ∃ c', Represents c' (Function.update lists o []) ∧ (∀ a ∈ lists o, c'.link a = {}) ∧
      c.release visit fuel o s = ((lists o).foldlM visit s).map fun s' => (c', s') := by
  let bare := (c.setHead o none).setTail o none
  have ends := detachAll_ends bare (lists o)
  have links := detachAll_link bare (lists o)
  refine ⟨(lists o).foldl Chains.detach bare, ?_, ?_, ?_⟩
  · refine right.replace ends.1 ends.2 ?_ ?_ ?_ List.nodup_nil
    · intro front a back split
      cases front <;> cases split
    · intro o' other a inside
      have elsewhere : a ∉ lists o := fun here => other (right.apart inside here)
      rw [links, if_neg elsewhere]
      rfl
    · intro a _ nowhere
      by_cases here : a ∈ lists o
      · rw [links, if_pos here]
      · rw [links, if_neg here]
        apply right.free
        intro o'
        by_cases same : o' = o
        · rw [same]
          exact here
        · exact nowhere o' same
  · intro a inside
    rw [links, if_pos inside]
  · unfold Chains.release
    rw [right.head o]
    apply drain_next enough (right.once o)
    intro front a back split
    show (c.link a).next = back.head?
    rw [right.linked o front a back split]

end Lists

end LinkedChains
