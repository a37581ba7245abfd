import TinyMq.Storage.BTreeRuns
import TinyMq.Storage.StorageRuns
import Mathlib.Data.Nat.Basic

/-!
The index over whole runs, on its own and inside a `Storage`. The storage of the
other modules holds its index as the function that it denotes; here it holds the
tree, and every answer is the same.
-/
namespace TinyMqBTreeIndex
open AssocLists SortedMaps Machines ByteStrings TinyMqTom TinyMqStorage TinyMqStorageRuns
open TinyMqBTree TinyMqBTreeRuns

section Runs
variable {K V : Type} [LinearOrder K]

theorem find_place {t : Nat} (two : 2 ≤ t) {b : BTree (K × V)} (valid : Valid t b) (key : K)
    (f : Option V → V) :
    (b.place t key f).1.find = Function.update b.find key (some (f (b.find key))) := by
  obtain ⟨valid', whole, _⟩ := valid_place two key f valid
  funext k
  rw [find_entries valid', whole, get_place valid.ascending, Function.update_apply,
    find_entries valid, find_entries valid]

theorem find_erase {t : Nat} (two : 2 ≤ t) {b : BTree (K × V)} (valid : Valid t b) (key : K) :
    (b.erase t key).1.find = Function.update b.find key none := by
  obtain ⟨valid', whole, _⟩ := valid_erase two key valid
  funext k
  rw [find_entries valid', whole, get_erase, Function.update_apply, find_entries valid]

variable [Inhabited V]

inductive IndexOp (K V : Type) where
  | subscript (key : K) (change : V → V)
  | insert (key : K) (v : V)
  | erase (key : K)
  | find (key : K)

inductive IndexAnswer (V : Type) where
  | done
  | inserted (new : Bool)
  | erased (count : Nat)
  | found (v : Option V)

def indexStep (t : Nat) (b : BTree (K × V)) : IndexOp K V → BTree (K × V) × IndexAnswer V
  | .subscript key change => (b.subscript t key change, .done)
  | .insert key v => ((b.insert t key v).1, .inserted (b.insert t key v).2)
  | .erase key => ((b.erase t key).1, .erased (b.erase t key).2)
  | .find key => (b, .found (b.find key))

/-- What the operations mean on a map. -/
def mapStep (m : K → Option V) : IndexOp K V → (K → Option V) × IndexAnswer V
  | .subscript key change =>
    (Function.update m key (some (change ((m key).getD default))), .done)
  | .insert key v =>
    (Function.update m key (some ((m key).getD v)), .inserted (m key).isNone)
  | .erase key => (Function.update m key none, .erased (if (m key).isSome then 1 else 0))
  | .find key => (m, .found (m key))

def indexRun (t : Nat) (ops : List (IndexOp K V)) : BTree (K × V) :=
  ops.foldl (fun b op => (indexStep t b op).1) BTree.empty

theorem find_subscript {t : Nat} (two : 2 ≤ t) {b : BTree (K × V)} (valid : Valid t b) (key : K)
    (change : V → V) : (b.subscript t key change).find =
      Function.update b.find key (some (change ((b.find key).getD default))) :=
  find_place two valid key _

theorem indexStep_map {t : Nat} (two : 2 ≤ t) {b : BTree (K × V)} (valid : Valid t b)
    (op : IndexOp K V) :
    Valid t (indexStep t b op).1 ∧
      mapStep b.find op = ((indexStep t b op).1.find, (indexStep t b op).2) := by
  cases op with
  | subscript key change =>
    refine ⟨(valid_place two key _ valid).1, ?_⟩
    simp only [indexStep, mapStep, find_subscript two valid]
  | insert key v =>
    obtain ⟨valid', _, count⟩ := valid_place two key (fun old => old.getD v) valid
    refine ⟨valid', ?_⟩
    have fresh : decide ((b.place t key fun old => old.getD v).2 = 1) = (b.find key).isNone := by
      rw [count, find_entries valid]
      cases get (entries b) key <;> rfl
    have moved := find_place two valid key fun old => old.getD v
    simp only [indexStep, mapStep, BTree.insert, fresh, moved]
  | erase key =>
    obtain ⟨valid', _, count⟩ := valid_erase two key valid
    refine ⟨valid', ?_⟩
    have gone : (b.erase t key).2 = if (b.find key).isSome then 1 else 0 := by
      rw [count, find_entries valid]
      cases get (entries b) key <;> rfl
    simp only [indexStep, mapStep, find_erase two valid, gone]
  | find key => exact ⟨valid, rfl⟩

theorem valid_indexRun {t : Nat} (two : 2 ≤ t) (ops : List (IndexOp K V)) :
    Valid t (indexRun t ops) := by
  have kept : ∀ (b : BTree (K × V)) op, Valid t b → Valid t (indexStep t b op).1 :=
    fun b op valid => (indexStep_map two valid op).1
  exact invariant_reached kept valid_empty ops _ (last_state_mem _ _ ops)

theorem outputs_from {t : Nat} (two : 2 ≤ t) (ops : List (IndexOp K V)) {b : BTree (K × V)}
    (valid : Valid t b) : outputs (indexStep t) b ops = outputs mapStep b.find ops := by
  induction ops generalizing b with
  | nil => rfl
  | cons op ops ih =>
    obtain ⟨valid', square⟩ := indexStep_map two valid op
    rw [outputs, outputs, square, ih valid']

/- Every run from the empty tree answers as a map does. -/
theorem index_answers {t : Nat} (two : 2 ≤ t) (ops : List (IndexOp K V)) :
    outputs (indexStep t) BTree.empty ops = outputs mapStep (fun _ => none) ops :=
  outputs_from two ops valid_empty

/-- Nodes of at most three keys: the inserts split them, the erases merge them again. -/
def grownAndShrunk : List (IndexOp Nat Bool) :=
  [.insert 1 true, .insert 2 true, .insert 3 true, .insert 4 true, .insert 5 true, .insert 6 true,
    .find 4, .erase 1, .erase 2, .erase 4, .find 4, .erase 5, .find 6]

theorem index_answers_four : 2 ≤ 2 ∧
    outputs (indexStep 2) BTree.empty grownAndShrunk =
      outputs mapStep (fun _ => none) grownAndShrunk :=
  ⟨by decide, index_answers (by decide) grownAndShrunk⟩

/- And every tree of a run passes `verify`. -/
theorem index_verified {t : Nat} (two : 2 ≤ t) (ops : List (IndexOp K V)) :
    (indexRun t ops).verify t = true :=
  valid_verify two (valid_indexRun two ops)

theorem index_verified_three : 2 ≤ 2 ∧ (indexRun 2 grownAndShrunk).verify 2 = true :=
  ⟨by decide, index_verified (by decide) grownAndShrunk⟩

/-- `size` counts the keys that `find` finds, and the height is logarithmic in it. -/
def Balanced (t : Nat) (b : BTree (K × V)) : Prop :=
  ∃ keys : List K, keys.Nodup ∧ keys.length = b.root.size ∧
    (∀ k, k ∈ keys ↔ b.find k ≠ none) ∧
    (0 < b.height → 2 * t ^ b.height ≤ b.root.size + 1)

theorem index_height {t : Nat} (two : 2 ≤ t) (ops : List (IndexOp K V)) :
    Balanced t (indexRun t ops) := by
  have valid := valid_indexRun two ops
  generalize indexRun t ops = b at valid
  have distinct : ((entries b).map Prod.fst).Nodup := by
    rw [List.Nodup, List.pairwise_map]
    exact List.Pairwise.imp (fun lower => lower.ne) valid.ascending
  refine ⟨(entries b).map Prod.fst, distinct, ?_, ?_, ?_⟩
  · rw [List.length_map]
    exact valid.sound.size.symm
  · intro k
    rw [find_entries valid]
    constructor
    · intro member
      obtain ⟨e, inside, rfl⟩ := List.mem_map.mp member
      exact get_ne_none inside
    · intro found
      obtain ⟨v, isThere⟩ := Option.ne_none_iff_exists'.mp found
      exact List.mem_map_of_mem (get_mem isThere)
  · intro tall
    obtain ⟨h, root⟩ := b
    cases h with
    | zero => exact absurd tall (Nat.lt_irrefl 0)
    | succ h =>
      have positive : 0 < root.keys.length := by
        rcases valid.rooted with isLeaf | positive
        · cases isLeaf
        · exact positive
      have size : root.size = (entries ⟨h + 1,root⟩).length := valid.sound.size
      have total := contents_least (n := 2) valid.sound
        (fun c holds => filled_least two h holds) (Nat.succ_le_succ positive)
      have stated : 2 * t ^ (h + 1) ≤ root.size + 1 := by
        rw [size]
        exact total
      exact stated

theorem index_height_four : 2 ≤ 2 ∧
    Balanced 2 (indexRun 2 ((List.range 4).map fun k => .insert k true)) :=
  ⟨by decide, index_height (by decide) _⟩

end Runs

section Indexed

/-- `Storage` with the index it has; the tom files are those of the model without it. -/
structure IndexedStorage where
  currentTomId : Nat
  toms : List Tom
  index : BTree (UUID × Record)

def IndexedStorage.files (s : IndexedStorage) : Storage := ⟨s.currentTomId,s.toms,fun _ => none⟩

def IndexedStorage.withFiles (s : IndexedStorage) (files : Storage) : IndexedStorage :=
  { s with currentTomId := files.currentTomId, toms := files.toms }

/-- What the index denotes. -/
def IndexedStorage.view [LinearOrder UUID] (s : IndexedStorage) : Storage :=
  ⟨s.currentTomId,s.toms,s.index.find⟩

instance : Inhabited Record := ⟨{}⟩

def fanout : Nat := 64

theorem walkTom_related {σ τ : Type} {R : σ → τ → Prop}
    {visit : Tom → Record → σ → Tom × σ} {visit' : Tom → Record → τ → Tom × τ}
    (agree : ∀ t r a b, R a b →
      (visit t r a).1 = (visit' t r b).1 ∧ R (visit t r a).2 (visit' t r b).2)
    (fuel : Nat) (t : Tom) (offset : Nat) {a : σ} {b : τ} (related : R a b) :
    (walkTom visit fuel t offset a).1 = (walkTom visit' fuel t offset b).1 ∧
      ((∃ e, (walkTom visit fuel t offset a).2 = .error e ∧
          (walkTom visit' fuel t offset b).2 = .error e) ∨
        ∃ a' b', (walkTom visit fuel t offset a).2 = .ok a' ∧
          (walkTom visit' fuel t offset b).2 = .ok b' ∧ R a' b') := by
  induction fuel generalizing t offset a b with
  | zero => exact ⟨rfl, Or.inr ⟨a, b, rfl, rfl, related⟩⟩
  | succ fuel ih =>
    rw [walkTom, walkTom]
    rcases t.record offset with ⟨t, e | r⟩
    · exact ⟨rfl, Or.inl ⟨e, rfl, rfl⟩⟩
    · simp only
      split
      · exact ⟨rfl, Or.inr ⟨a, b, rfl, rfl, related⟩⟩
      · split
        · obtain ⟨same, next⟩ := agree t r a b related
          simp only [same]
          exact ih _ _ next
        · exact ih _ _ related

theorem walkToms_related {σ τ : Type} {R : σ → τ → Prop}
    {visit : Tom → Record → σ → Tom × σ} {visit' : Tom → Record → τ → Tom × τ}
    (agree : ∀ t r a b, R a b →
      (visit t r a).1 = (visit' t r b).1 ∧ R (visit t r a).2 (visit' t r b).2)
    (toms : List Tom) {a : σ} {b : τ} (related : R a b) :
    (walkToms visit toms a).1 = (walkToms visit' toms b).1 ∧
      ((∃ e, (walkToms visit toms a).2 = .error e ∧ (walkToms visit' toms b).2 = .error e) ∨
        ∃ a' b', (walkToms visit toms a).2 = .ok a' ∧ (walkToms visit' toms b).2 = .ok b' ∧
          R a' b') := by
  induction toms generalizing a b with
  | nil => exact ⟨rfl, Or.inr ⟨a, b, rfl, rfl, related⟩⟩
  | cons t rest ih =>
    obtain ⟨same, outcome⟩ := walkTom_related agree (t.size + 1) t 0 related
    rw [walkToms, walkToms]
    rcases left : walkTom visit (t.size + 1) t 0 a with ⟨u, result⟩
    rcases right : walkTom visit' (t.size + 1) t 0 b with ⟨u', result'⟩
    rw [left, right] at same outcome
    simp only at same outcome
    subst same
    rcases outcome with ⟨e, rfl, rfl⟩ | ⟨a', b', rfl, rfl, next⟩
    · exact ⟨rfl, Or.inl ⟨e, rfl, rfl⟩⟩
    · obtain ⟨sameRest, outcomeRest⟩ := ih next
      simp only
      exact ⟨congrArg (u :: ·) sameRest, outcomeRest⟩

variable [LinearOrder UUID]

def assign (index : BTree (UUID × Record)) (r : Record) : BTree (UUID × Record) :=
  index.subscript fanout r.header.uuid fun _ => r

def treeVisit (t : Tom) (r : Record) (index : BTree (UUID × Record)) :
    Tom × BTree (UUID × Record) :=
  (t, assign index r)

def IndexedStorage.rebuildIndex (s : IndexedStorage) :
    IndexedStorage × Except StorageError Unit :=
  match walkToms treeVisit s.toms s.index with
  | (toms, .error e) => ({ s with toms := toms }, .error e)
  | (toms, .ok index) => ({ s with toms := toms, index := index }, .ok ())

def IndexedStorage.construct (dir : Directory) : Except StorageError IndexedStorage :=
  let opened := dir.foldl Storage.preOpen ⟨0,[],fun _ => none⟩
  match IndexedStorage.rebuildIndex ⟨opened.currentTomId,opened.toms,BTree.empty⟩ with
  | (_, .error e) => .error e
  | (s, .ok _) => .ok s

def IndexedStorage.reopen (s : IndexedStorage) : Except StorageError IndexedStorage :=
  IndexedStorage.construct s.files.directory

def IndexedStorage.append (s : IndexedStorage) (uuid : UUID) (data : Bytes)
    (fault : Option Nat) : IndexedStorage × Except StorageError Record :=
  if data.isEmpty then (s, .error .emptyData)
  else
    match s.files.currentTom with
    | (files, .error e) => (s.withFiles files, .error e)
    | (files, .ok tom) =>
      match tom.append uuid data fault with
      | (tom, .error e) => (s.withFiles (files.setTom tom), .error e)
      | (tom, .ok r) =>
        ({ s.withFiles (files.setTom tom) with index := assign s.index r }, .ok r)

def IndexedStorage.record (s : IndexedStorage) (uuid : UUID) : Record :=
  (s.index.find uuid).getD {}

def IndexedStorage.remove (s : IndexedStorage) (r : Record) (fault : Option Nat) :
    IndexedStorage × Except StorageError (Record × Bool) :=
  match s.files.tom r.tomId with
  | none => (s, .error .outOfRange)
  | some t =>
    let (t, uuid) := recoverUuid t r
    let (t, r, ok) := t.remove r fault
    let s := s.withFiles (s.files.setTom t)
    if ok ∧ uuid ≠ 0 then ({ s with index := (s.index.erase fanout uuid).1 }, .ok (r, ok))
    else (s, .ok (r, ok))

/-- The operations of a storage, with the device's answer to each write. -/
inductive StorageOp where
  | append (u : UUID) (d : Bytes) (fault : Option Nat)
  | remove (r : Record) (fault : Option Nat)
  | record (u : UUID)
  | recordAt (tomId offset : Nat)
  | data (r : Record)
  | scan
  | reopen

/-- An exception of the constructor leaves the storage that was there. -/
def plainStep (s : Storage) : StorageOp → Storage × Answer
  | .append u d fault => ((s.append u d fault).1, .record (s.append u d fault).2)
  | .remove r fault => ((s.remove r fault).1, .removed (s.remove r fault).2)
  | .record u => (s, .record (.ok (s.record u)))
  | .recordAt tomId offset => ((s.recordAt tomId offset).1, .record (s.recordAt tomId offset).2)
  | .data r => ((s.data r).1, .data (s.data r).2)
  | .scan => (s.scan.1, .scan s.scan.2)
  | .reopen =>
    match s.reopen with
    | .ok s => (s, .opened (.ok ()))
    | .error e => (s, .opened (.error e))

def indexedStep (s : IndexedStorage) : StorageOp → IndexedStorage × Answer
  | .append u d fault => ((s.append u d fault).1, .record (s.append u d fault).2)
  | .remove r fault => ((s.remove r fault).1, .removed (s.remove r fault).2)
  | .record u => (s, .record (.ok (s.record u)))
  | .recordAt tomId offset =>
    (s.withFiles (s.files.recordAt tomId offset).1, .record (s.files.recordAt tomId offset).2)
  | .data r => (s.withFiles (s.files.data r).1, .data (s.files.data r).2)
  | .scan => (s.withFiles s.files.scan.1, .scan s.files.scan.2)
  | .reopen =>
    match s.reopen with
    | .ok s => (s, .opened (.ok ()))
    | .error e => (s, .opened (.error e))

theorem find_assign {index : BTree (UUID × Record)} (valid : Valid fanout index) (r : Record) :
    Valid fanout (assign index r) ∧
      (assign index r).find = Function.update index.find r.header.uuid (some r) := by
  refine ⟨(valid_place (by decide) r.header.uuid _ valid).1, ?_⟩
  have found := find_subscript (t := fanout) (by decide) valid r.header.uuid fun _ => r
  unfold assign
  convert found

theorem find_erased {index : BTree (UUID × Record)} (valid : Valid fanout index) (u : UUID) :
    Valid fanout (index.erase fanout u).1 ∧
      (index.erase fanout u).1.find = Function.update index.find u none := by
  refine ⟨(valid_erase (by decide) u valid).1, ?_⟩
  have gone := find_erase (t := fanout) (by decide) valid u
  convert gone

def Denotes (index : BTree (UUID × Record)) (f : UUID → Option Record) : Prop :=
  Valid fanout index ∧ index.find = f

theorem visit_denotes (t : Tom) (r : Record) (index : BTree (UUID × Record))
    (f : UUID → Option Record) (denotes : Denotes index f) :
    (treeVisit t r index).1 = (indexVisit t r f).1 ∧
      Denotes (treeVisit t r index).2 (indexVisit t r f).2 := by
  obtain ⟨valid, rfl⟩ := denotes
  exact ⟨rfl, find_assign valid r⟩

/-- The storage with the tree and the one with the function. -/
def Same (s : IndexedStorage) (p : Storage) : Prop := Valid fanout s.index ∧ s.view = p

theorem find_empty : (BTree.empty : BTree (UUID × Record)).find = fun _ => none := by
  funext u
  rw [find_entries (valid_empty (t := fanout))]
  rfl

theorem construct_same (dir : Directory) :
    (∃ e, IndexedStorage.construct dir = .error e ∧ Storage.construct dir = .error e) ∨
      ∃ s p, IndexedStorage.construct dir = .ok s ∧ Storage.construct dir = .ok p ∧ Same s p := by
  have start : Denotes BTree.empty fun _ => none := ⟨valid_empty, find_empty⟩
  have opened : (dir.foldl Storage.preOpen ⟨0,[],fun _ => none⟩).index = fun _ => none := by
    apply List.foldlRecOn dir Storage.preOpen (motive := fun s => s.index = fun _ => none) rfl
    intro s kept file _
    rw [Storage.preOpen]
    split
    · exact kept
    · exact kept
  generalize begun : dir.foldl Storage.preOpen ⟨0,[],fun _ => none⟩ = s at opened
  obtain ⟨same, outcome⟩ := walkToms_related visit_denotes s.toms start
  simp only [IndexedStorage.construct, Storage.construct, IndexedStorage.rebuildIndex,
    Storage.rebuildIndex, begun, opened]
  rcases left : walkToms treeVisit s.toms BTree.empty with ⟨toms, result⟩
  rcases right : walkToms indexVisit s.toms fun _ => none with ⟨toms', result'⟩
  rw [left, right] at same outcome
  simp only at same outcome
  subst same
  rcases outcome with ⟨e, rfl, rfl⟩ | ⟨index, f, rfl, rfl, valid, rfl⟩
  · exact Or.inl ⟨e, rfl, rfl⟩
  · exact Or.inr ⟨_, _, rfl, rfl, valid, rfl⟩

theorem currentTom_files (s : IndexedStorage) :
    s.view.currentTom =
      ((s.withFiles s.files.currentTom.1).view, s.files.currentTom.2) := by
  have sameTom : s.view.tom s.currentTomId = s.files.tom s.currentTomId := rfl
  have sameContains : s.view.contains (s.currentTomId + 1) =
      s.files.contains (s.currentTomId + 1) := rfl
  have sameId : s.view.currentTomId = s.currentTomId := rfl
  have sameId' : s.files.currentTomId = s.currentTomId := rfl
  rw [Storage.currentTom, Storage.currentTom, sameId, sameId', sameTom]
  cases s.files.tom s.currentTomId with
  | some t => rfl
  | none =>
    simp only [sameContains]
    cases s.files.contains (s.currentTomId + 1) <;> rfl

theorem append_same {s : IndexedStorage} (valid : Valid fanout s.index) (u : UUID) (d : Bytes)
    (fault : Option Nat) : Valid fanout (s.append u d fault).1.index ∧
      s.view.append u d fault = ((s.append u d fault).1.view, (s.append u d fault).2) := by
  simp only [IndexedStorage.append, Storage.append, currentTom_files]
  split
  · exact ⟨valid, rfl⟩
  · rcases s.files.currentTom with ⟨files, e | tom⟩
    · exact ⟨valid, rfl⟩
    · simp only
      rcases tom.append u d fault with ⟨tom', e | r⟩
      · exact ⟨valid, rfl⟩
      · obtain ⟨valid', found⟩ := find_assign valid r
        refine ⟨valid', ?_⟩
        simp only [IndexedStorage.view, IndexedStorage.withFiles, Storage.setTom, found]

theorem remove_same {s : IndexedStorage} (valid : Valid fanout s.index) (r : Record)
    (fault : Option Nat) : Valid fanout (s.remove r fault).1.index ∧
      s.view.remove r fault = ((s.remove r fault).1.view, (s.remove r fault).2) := by
  have atTom : s.view.tom r.tomId = s.files.tom r.tomId := rfl
  simp only [IndexedStorage.remove, Storage.remove, atTom]
  cases s.files.tom r.tomId with
  | none => exact ⟨valid, rfl⟩
  | some t =>
    simp only
    split
    · obtain ⟨valid', gone⟩ := find_erased valid (recoverUuid t r).2
      refine ⟨valid', ?_⟩
      simp only [IndexedStorage.view, IndexedStorage.withFiles, IndexedStorage.files,
        Storage.setTom, gone]
    · exact ⟨valid, rfl⟩

theorem indexedStep_same {s : IndexedStorage} (valid : Valid fanout s.index) (op : StorageOp) :
    Valid fanout (indexedStep s op).1.index ∧
      plainStep s.view op = ((indexedStep s op).1.view, (indexedStep s op).2) := by
  cases op with
  | append u d fault =>
    obtain ⟨valid', same⟩ := append_same valid u d fault
    refine ⟨valid', ?_⟩
    simp only [plainStep, indexedStep, same]
  | remove r fault =>
    obtain ⟨valid', same⟩ := remove_same valid r fault
    refine ⟨valid', ?_⟩
    simp only [plainStep, indexedStep, same]
  | record u => exact ⟨valid, rfl⟩
  | recordAt tomId offset =>
    refine ⟨valid, ?_⟩
    have atTom : s.view.tom tomId = s.files.tom tomId := rfl
    simp only [plainStep, indexedStep, Storage.recordAt, atTom]
    cases s.files.tom tomId <;> rfl
  | data r =>
    refine ⟨valid, ?_⟩
    have atTom : s.view.tom r.tomId = s.files.tom r.tomId := rfl
    simp only [plainStep, indexedStep, Storage.data, atTom]
    cases s.files.tom r.tomId <;> rfl
  | scan => exact ⟨valid, rfl⟩
  | reopen =>
    have sameFiles : s.view.directory = s.files.directory := rfl
    simp only [plainStep, indexedStep, Storage.reopen, IndexedStorage.reopen, sameFiles]
    rcases construct_same s.files.directory with ⟨e, left, right⟩ | ⟨s', p, left, right, same⟩
    · rw [left, right]
      exact ⟨valid, rfl⟩
    · rw [left, right]
      obtain ⟨valid', rfl⟩ := same
      exact ⟨valid', rfl⟩

/- A storage with the tree answers every run as the one with the function does,
   whatever fails on the way, and from every directory the same way. -/
theorem indexed_answers (dir : Directory) (ops : List StorageOp) :
    (∃ e, IndexedStorage.construct dir = .error e ∧ Storage.construct dir = .error e) ∨
      ∃ s p, IndexedStorage.construct dir = .ok s ∧ Storage.construct dir = .ok p ∧
        outputs indexedStep s ops = outputs plainStep p ops ∧
        (ops.foldl (fun s op => (indexedStep s op).1) s).index.verify fanout = true := by
  rcases construct_same dir with failed | ⟨s, p, left, right, valid, same⟩
  · exact Or.inl failed
  · refine Or.inr ⟨s, p, left, right, ?_⟩
    subst same
    clear left right
    induction ops generalizing s with
    | nil => exact ⟨rfl, valid_verify (by decide) valid⟩
    | cons op ops ih =>
      obtain ⟨valid', square⟩ := indexedStep_same valid op
      obtain ⟨answers, verified⟩ := ih (indexedStep s op).1 valid'
      refine ⟨?_, verified⟩
      rw [outputs, outputs, square, answers]

end Indexed

end TinyMqBTreeIndex
