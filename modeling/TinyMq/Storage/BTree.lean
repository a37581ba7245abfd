import TinyMq.Lib.AssocLists
import Mathlib.Data.List.Basic

/-!
The vendored index of `btree.h`, as `DiskBTreeMap` uses it: pairs, and no two
with one key. A node is its keys, its `size_` and its children. `height_` is
the level of a node's type, so that the leaves stand on one level, and `index_`
its position in the list of its parent. The iterators, `begin_` among them, and
the memory of the nodes are not modelled. A loop that goes down from the root
is one recursion on the height, each level one turn of the loop.
-/
namespace TinyMqBTree

structure Node (E C : Type) where
  keys : List E
  size : Nat
  children : List C

/-- What may stand below a node of height `h`: nothing below a leaf. -/
def Level (E : Type) : Nat → Type
  | 0 => Empty
  | h + 1 => Node E (Level E h)

def Level.size {E : Type} : (h : Nat) → Level E h → Nat
  | 0, c => Empty.elim c
  | _ + 1, x => Node.size x

structure BTree (E : Type) where
  height : Nat
  root : Node E (Level E height)

def BTree.empty {E : Type} : BTree E := ⟨0,[],0,[]⟩

section Nodes
variable {E C : Type} (t : Nat)

def Node.isFull (x : Node E C) : Bool := x.keys.length = 2 * t - 1

def Node.canTakeKey (x : Node E C) : Bool := x.keys.length > t - 1

/-- Asked of children only: the root has no minimum. -/
def Node.hasMinimalKeys (x : Node E C) : Bool := x.keys.length = t - 1

def Node.insertLeaf (x : Node E C) (i : Nat) (e : E) : Node E C :=
  { x with keys := x.keys.insertIdx i e, size := x.size + 1 }

def Node.eraseLeaf (x : Node E C) (i : Nat) : Node E C :=
  { x with keys := x.keys.eraseIdx i, size := x.size - 1 }

/-- One turn of a loop that goes down: the rest of it happens in the child, and
    the sizes on the way are adjusted by its count. -/
def Node.descend (count : Nat → Nat → Nat) (x : Node E C) (j : Nat) (go : C → C × Nat) :
    Node E C × Nat :=
  match x.children[j]? with
  | none => (x, 0)
  | some c =>
    ({ x with children := x.children.set j (go c).1, size := count x.size (go c).2 }, (go c).2)

variable (sizeOf : C → Nat)

def splitChild (x : Node E (Node E C)) (i : Nat) : Node E (Node E C) :=
  match x.children[i]? with
  | none => x
  | some y =>
    match y.keys[t - 1]? with
    | none => x
    | some middle =>
      let zKeys := y.keys.drop t
      let zChildren := y.children.drop t
      let zSize := zKeys.length + (zChildren.map sizeOf).sum
      let z : Node E C := ⟨zKeys,zSize,zChildren⟩
      let y : Node E C := ⟨y.keys.take (t - 1),y.size - (zSize + 1),y.children.take t⟩
      { x with keys := x.keys.insertIdx i middle,
               children := (x.children.set i y).insertIdx (i + 1) z }

def mergeChild (x : Node E (Node E C)) (i : Nat) : Node E (Node E C) :=
  match x.keys[i]?, x.children[i]?, x.children[i + 1]? with
  | some k, some y, some sibling =>
    let immigrated := sibling.keys.length + (sibling.children.map sizeOf).sum
    let y : Node E C :=
      ⟨y.keys ++ k :: sibling.keys,y.size + (immigrated + 1),y.children ++ sibling.children⟩
    { x with keys := x.keys.eraseIdx i, children := (x.children.set i y).eraseIdx (i + 1) }
  | _, _, _ => x

/-- The child at `i` takes a key from its parent and the parent one from the
    right sibling, whose first child moves over. -/
def leftRotate (x : Node E (Node E C)) (i : Nat) : Node E (Node E C) :=
  match x.keys[i]?, x.children[i]?, x.children[i + 1]? with
  | some k, some node, some ⟨first :: rest,size,children⟩ =>
    let orphan := (children.head?.toList.map sizeOf).sum
    let node : Node E C :=
      ⟨node.keys ++ [k],node.size + 1 + orphan,node.children ++ children.head?.toList⟩
    let sibling : Node E C := ⟨rest,size - 1 - orphan,children.tail⟩
    { x with keys := x.keys.set i first,
             children := (x.children.set i node).set (i + 1) sibling }
  | _, _, _ => x

/-- The child at `i + 1` takes a key from its parent and the parent one from the
    left sibling, whose last child moves over. -/
def rightRotate (x : Node E (Node E C)) (i : Nat) : Node E (Node E C) :=
  match x.keys[i]?, x.children[i]?, x.children[i + 1]? with
  | some k, some sibling, some node =>
    match sibling.keys.getLast? with
    | none => x
    | some last =>
      let orphan := (sibling.children.getLast?.toList.map sizeOf).sum
      let node : Node E C :=
        ⟨k :: node.keys,node.size + 1 + orphan,sibling.children.getLast?.toList ++ node.children⟩
      let sibling : Node E C :=
        ⟨sibling.keys.dropLast,sibling.size - 1 - orphan,sibling.children.dropLast⟩
      { x with keys := x.keys.set i last,
               children := (x.children.set i sibling).set (i + 1) node }
  | _, _, _ => x

/-- The turn of `erase_lb` at a node without the key: a child with no key to
    spare first gets one from a sibling, or is merged with it. -/
def fixChild (x : Node E (Node E C)) (i : Nat) : Node E (Node E C) × Nat :=
  if x.children[i]?.any (Node.hasMinimalKeys t) then
    if x.children[i + 1]?.any (Node.canTakeKey t) then (leftRotate sizeOf x i, i)
    else if 0 < i ∧ x.children[i - 1]?.any (Node.canTakeKey t) then
      (rightRotate sizeOf x (i - 1), i)
    else if i + 1 < x.children.length then (mergeChild sizeOf x i, i)
    else if 0 < i then (mergeChild sizeOf x (i - 1), i - 1)
    else (x, i)
  else (x, i)

def swapLastChild (swap : C → E → C × E) (x : Node E C) (e : E) : Node E C × E :=
  match x.children.getLast? with
  | none => (x, e)
  | some c => ({ x with children := x.children.dropLast ++ [(swap c e).1] }, (swap c e).2)

def swapFirstChild (swap : C → E → C × E) (x : Node E C) (e : E) : Node E C × E :=
  match x.children with
  | [] => (x, e)
  | c :: rest => ({ x with children := (swap c e).1 :: rest }, (swap c e).2)

/-- The predecessor of a key is the last key of the rightmost leaf of the child
    before it; `e` takes its place. -/
def swapRightmost : (h : Nat) → Node E (Level E h) → E → Node E (Level E h) × E
  | 0, x, e =>
    match x.keys.getLast? with
    | none => (x, e)
    | some last => ({ x with keys := x.keys.dropLast ++ [e] }, last)
  | h + 1, x, e => swapLastChild (swapRightmost h) x e

/-- Its successor is the first key of the leftmost leaf of the child behind it. -/
def swapLeftmost : (h : Nat) → Node E (Level E h) → E → Node E (Level E h) × E
  | 0, x, e =>
    match x.keys with
    | [] => (x, e)
    | first :: rest => ({ x with keys := e :: rest }, first)
  | h + 1, x, e => swapFirstChild (swapLeftmost h) x e

/-- `iter_swap` of the key at `i` with a neighbour in the child at `j`. -/
def swapKey (swap : C → E → C × E) (x : Node E C) (i j : Nat) : Node E C :=
  match x.keys[i]?, x.children[j]? with
  | some e, some y =>
    { x with keys := x.keys.set i (swap y e).2, children := x.children.set j (swap y e).1 }
  | _, _ => x

/-- The turn of `erase_lb` at an inner node that has the key: it changes places
    with its predecessor or its successor, or moves down by a merge. -/
def pullKey (pred succ : Node E C → E → Node E C × E) (x : Node E (Node E C)) (i : Nat) :
    Node E (Node E C) × Nat :=
  if x.children[i]?.any (Node.canTakeKey t) then (swapKey pred x i i, i)
  else if x.children[i + 1]?.any (Node.canTakeKey t) then (swapKey succ x i (i + 1), i + 1)
  else (mergeChild sizeOf x i, i)

end Nodes

section Maps
variable {K V : Type} [LinearOrder K] (t : Nat) (key : K)

/-- `lower_bound` on the keys of a node. -/
def getLb (ks : List (K × V)) : Nat := (ks.takeWhile fun e => e.1 < key).length

def keyAt (ks : List (K × V)) (i : Nat) : Option (K × V) := ks[i]?.filter fun e => key = e.1

def placeLeaf {C : Type} (f : Option V → V) (x : Node (K × V) C) : Node (K × V) C × Nat :=
  let i := getLb key x.keys
  match keyAt key x.keys i with
  | some e => ({ x with keys := x.keys.set i (e.1, f (some e.2)) }, 0)
  | none => (x.insertLeaf i (key, f none), 1)

def placeInner {C : Type} (f : Option V → V) (sizeOf : C → Nat)
    (go : Node (K × V) C → Node (K × V) C × Nat) (x : Node (K × V) (Node (K × V) C)) :
    Node (K × V) (Node (K × V) C) × Nat :=
  let i := getLb key x.keys
  match keyAt key x.keys i with
  | some e => ({ x with keys := x.keys.set i (e.1, f (some e.2)) }, 0)
  | none =>
    if x.children[i]?.any (Node.isFull t) then
      let x := splitChild t sizeOf x i
      match x.keys[i]? with
      | none => (x, 0)
      | some middle =>
        if key = middle.1 then ({ x with keys := x.keys.set i (middle.1, f (some middle.2)) }, 0)
        else x.descend (· + ·) (if middle.1 < key then i + 1 else i) go
    else x.descend (· + ·) i go

/-- The loop of `insert_lb`, which `operator[]` repeats: they differ in what
    becomes of the value, `f none` where the key is new and `f (some v)` where
    it is there. The answer is the number of keys inserted. -/
def placeLb (f : Option V → V) :
    (h : Nat) → Node (K × V) (Level (K × V) h) → Node (K × V) (Level (K × V) h) × Nat
  | 0, x => placeLeaf key f x
  | h + 1, x => placeInner t key f (Level.size h) (placeLb f h) x

def removeLeaf {C : Type} (x : Node (K × V) C) : Node (K × V) C × Nat :=
  let i := getLb key x.keys
  if (keyAt key x.keys i).isSome then (x.eraseLeaf i, 1) else (x, 0)

def removeInner {C : Type} (sizeOf : C → Nat)
    (pred succ : Node (K × V) C → K × V → Node (K × V) C × (K × V))
    (go : Node (K × V) C → Node (K × V) C × Nat) (x : Node (K × V) (Node (K × V) C)) :
    Node (K × V) (Node (K × V) C) × Nat :=
  let i := getLb key x.keys
  let next :=
    if (keyAt key x.keys i).isSome then pullKey t sizeOf pred succ x i else fixChild t sizeOf x i
  next.1.descend (· - ·) next.2 go

/-- The loop of `erase_lb`. -/
def eraseLb : (h : Nat) → Node (K × V) (Level (K × V) h) → Node (K × V) (Level (K × V) h) × Nat
  | 0, x => removeLeaf key x
  | h + 1, x =>
    removeInner t key (Level.size h) (swapRightmost h) (swapLeftmost h) (eraseLb h) x

def search : (h : Nat) → Node (K × V) (Level (K × V) h) → Option (K × V)
  | 0, x => keyAt key x.keys (getLb key x.keys)
  | h + 1, x =>
    match keyAt key x.keys (getLb key x.keys) with
    | some e => some e
    | none =>
      match x.children[getLb key x.keys]? with
      | none => none
      | some c => search h c

/-- A full root becomes the only child of a new one and is split. -/
def BTree.growRoot {E : Type} (b : BTree E) : BTree E :=
  if b.root.isFull t then
    ⟨b.height + 1,splitChild t (Level.size b.height) ⟨[],b.root.size,[b.root]⟩ 0⟩
  else b

/-- Merges leave a root of one key without keys: its only child takes its place.
    The loop reads nothing of the root after the merge, so that this may wait
    until it is through. -/
def BTree.promoteRootIfNecessary {E : Type} : BTree E → BTree E
  | ⟨0,root⟩ => ⟨0,root⟩
  | ⟨h + 1,root⟩ =>
    match root.keys, root.children with
    | [], child :: _ => ⟨h,child⟩
    | _, _ => ⟨h + 1,root⟩

def BTree.place (f : Option V → V) (b : BTree (K × V)) : BTree (K × V) × Nat :=
  let grown := b.growRoot t
  let placed := placeLb t key f grown.height grown.root
  (⟨grown.height,placed.1⟩, placed.2)

/-- `insert` leaves the value of a key that is there. -/
def BTree.insert (v : V) (b : BTree (K × V)) : BTree (K × V) × Bool :=
  let placed := b.place t key fun old => old.getD v
  (placed.1, placed.2 = 1)

/-- `operator[]`, with what its caller does to the value through the reference;
    a new key begins with the default value. -/
def BTree.subscript [Inhabited V] (change : V → V) (b : BTree (K × V)) : BTree (K × V) :=
  (b.place t key fun old => change (old.getD default)).1

def BTree.find (b : BTree (K × V)) : Option V := (search key b.height b.root).map (·.2)

def BTree.erase (b : BTree (K × V)) : BTree (K × V) × Nat :=
  let erased := eraseLb t key b.height b.root
  (BTree.promoteRootIfNecessary ⟨b.height,erased.1⟩, erased.2)

end Maps

section Verify
variable {K V : Type} [LinearOrder K] (t : Nat)

def verifyKeys {C : Type} (isRoot : Bool) (x : Node (K × V) C) : Bool :=
  (isRoot || (t - 1 ≤ x.keys.length && x.keys.length ≤ 2 * t - 1)) &&
    decide (x.keys.Pairwise fun a b => ¬ b.1 < a.1)

/-- The key at `i` against the last key of the child before it and the first key
    of the child behind it. -/
def verifyAround {C : Type} (x : Node (K × V) (Node (K × V) C)) (i : Nat) : Bool :=
  match x.keys[i]?, x.children[i]?, x.children[i + 1]? with
  | some k, some before, some after =>
    before.keys.getLast?.any (fun last => ¬ k.1 < last.1) &&
      after.keys.head?.any fun first => ¬ first.1 < k.1
  | _, _, _ => false

def verifyLeaf {C : Type} (isRoot : Bool) (x : Node (K × V) C) : Bool :=
  verifyKeys t isRoot x && x.size = x.keys.length

def verifyInner {C : Type} (isRoot : Bool) (verifyChild : Node (K × V) C → Bool)
    (x : Node (K × V) (Node (K × V) C)) : Bool :=
  verifyKeys t isRoot x &&
    (isRoot || (t ≤ x.children.length && x.children.length = x.keys.length + 1 &&
      x.children.length ≤ 2 * t)) &&
    (List.range x.keys.length).all (verifyAround x) &&
    x.children.all verifyChild &&
    x.size = x.keys.length + (x.children.map Node.size).sum

def verifyNode : (h : Nat) → Bool → Node (K × V) (Level (K × V) h) → Bool
  | 0, isRoot, x => verifyLeaf t isRoot x
  | h + 1, isRoot, x => verifyInner t isRoot (verifyNode h false) x

def BTree.verify (b : BTree (K × V)) : Bool := verifyNode t b.height true b.root

end Verify

end TinyMqBTree
