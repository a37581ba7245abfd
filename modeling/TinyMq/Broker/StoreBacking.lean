import TinyMq.Lib.Machines
import TinyMq.Storage.Worker
import TinyMq.Storage.StorageRuns
import TinyMq.Broker.Store

/-!
The storage the broker sees is the one the worker runs. A record is named by its
ordinal there and by its place in the tom file here; the data is encoded into
bytes. While no write has failed the tom file is the image of the log, and from
the first failed write on the stream refuses everything.
-/
namespace TinyMqStoreBacking
open ByteStrings TombstoneLog Machines TinyMqTom TinyMqStorage TinyMqLogImage TinyMqRefinement
open TinyMqStorageRuns TinyMqWorker TinyMqStore
variable {α : Type} (encode : α → Payload)

def entryOf (e : Entry UUID α) : Entry UUID Payload := ⟨e.key,encode e.data,e.removed⟩

def image (log : Log UUID α) : RecordLog := log.map (entryOf encode)

def place (log : Log UUID α) (i : Nat) : Record :=
  match log[i]? with
  | none => {}
  | some e => recordFor firstTom (offsetOf (image encode log) i) (entryOf encode e)

def Failed (b : Storage) : Prop :=
  ∃ t, b.toms = [t] ∧ b.currentTomId = firstTom ∧ t.id = firstTom ∧ t.tomF.good = false

/-- The index of the store points at the live entry of every key. -/
def Ordinals (s : Store α) : Prop :=
  ∀ u i, s.index u = some i ↔ ∃ e, s.log[i]? = some e ∧ e.key = u ∧ e.removed = false

structure Backed (s : Store α) (b : Storage) : Prop where
  intact : s.good = true → Represents b (image encode s.log)
  failed : s.good = false → Failed b
  index : ∀ u, b.index u = lookup (liveFrom firstTom 0 (image encode s.log)) u
  ordinals : Ordinals s
  distinct : (keys s.log).Nodup
  named : 0 ∉ keys s.log

section Image

@[simp] theorem keys_image (log : Log UUID α) : keys (image encode log) = keys log := by
  simp [keys, image, entryOf]

theorem image_split (a b : Log UUID α) (e : Entry UUID α) :
    image encode (a ++ e :: b) = image encode a ++ entryOf encode e :: image encode b := by
  simp [image]

theorem offset_split (a b : Log UUID α) (e : Entry UUID α) :
    offsetOf (image encode (a ++ e :: b)) a.length = (logBytes (image encode a)).length := by
  rw [image_split]
  have length : a.length = (image encode a).length := by simp [image]
  rw [length]
  exact offsetOf_append_right _ _

theorem place_split (a b : Log UUID α) (e : Entry UUID α) :
    place encode (a ++ e :: b) a.length =
      recordFor firstTom (logBytes (image encode a)).length (entryOf encode e) := by
  have here : (a ++ e :: b)[a.length]? = some e := by simp
  unfold place
  rw [here]
  dsimp only
  rw [offset_split]

theorem split_at {log : Log UUID α} {i : Nat} {e : Entry UUID α} (here : log[i]? = some e) :
    ∃ a b, log = a ++ e :: b ∧ a.length = i := by
  obtain ⟨inside, same⟩ := List.getElem?_eq_some_iff.mp here
  refine ⟨log.take i, log.drop (i + 1), ?_, by simp; omega⟩
  rw [← same, List.getElem_cons_drop, List.take_append_drop]

theorem liveFrom_image (log : Log UUID α) :
    liveFrom firstTom 0 (image encode log) =
      (liveRecords log).map fun x => (place encode log x.2, (encode x.1.data).bytes) := by
  have loop : ∀ a b : Log UUID α,
      liveFrom firstTom (logBytes (image encode a)).length (image encode b) =
        ((b.zipIdx a.length).filter fun x => !x.1.removed).map
          fun x => (place encode (a ++ b) x.2, (encode x.1.data).bytes) := by
    intro a b
    induction b generalizing a with
    | nil => rfl
    | cons e b ih =>
      have rest := ih (a ++ [e])
      have next : (logBytes (image encode (a ++ [e]))).length =
          (logBytes (image encode a)).length + entrySize (entryOf encode e) := by
        simp [image]
      rw [next, List.length_append, List.length_singleton, List.append_assoc, List.singleton_append]
        at rest
      have cons : image encode (e :: b) = entryOf encode e :: image encode b := rfl
      rw [cons, liveFrom, List.zipIdx_cons, rest]
      cases removed : e.removed with
      | true =>
        rw [if_pos (show (entryOf encode e).removed = true from removed),
          List.filter_cons_of_neg (by simp [removed])]
      | false =>
        rw [if_neg (by simp [entryOf, removed]), List.filter_cons_of_pos (by simp [removed]),
          List.map_cons, place_split]
        rfl
  exact loop [] log

end Image

section Index
variable {encode} {s : Store α} {b : Storage}

theorem Backed.lookup (backed : Backed encode s b) (u : UUID) :
    lookup (liveFrom firstTom 0 (image encode s.log)) u = (s.index u).map (place encode s.log) := by
  cases found : s.index u with
  | some i =>
    obtain ⟨e, here, key, live⟩ := (backed.ordinals u i).mp found
    obtain ⟨a, c, split, length⟩ := split_at here
    have distinct := backed.distinct
    rw [← keys_image encode, split, image_split] at distinct
    have entry := lookup_entry (e := entryOf encode e) distinct live
    rw [Option.map_some, ← length, split, place_split, image_split]
    rw [← key]
    exact entry
  | none =>
    apply lookup_none
    rw [liveFrom_uuids]
    intro member
    obtain ⟨x, inside, key⟩ := List.mem_map.mp member
    obtain ⟨member', live⟩ := List.mem_filter.mp inside
    obtain ⟨e, at_, same⟩ := List.mem_map.mp member'
    obtain ⟨i, here⟩ := List.mem_iff_getElem?.mp at_
    have hit := (backed.ordinals u i).mpr ⟨e, here, by rw [← key, ← same]; rfl, by
      rw [← same] at live
      simpa [entryOf] using live⟩
    rw [found] at hit
    cases hit

theorem Backed.failing (backed : Backed encode s b) (bad : s.good = false) {b' : Storage}
    (failed : Failed b') (index : b'.index = b.index) : Backed encode s b' where
  intact := by
    intro good
    rw [bad] at good
    cases good
  failed := fun _ => failed
  index := by
    intro u
    rw [index]
    exact backed.index u
  ordinals := backed.ordinals
  distinct := backed.distinct
  named := backed.named

theorem backed_empty : Backed encode ({} : Store α) fresh where
  intact := fun _ => fresh_represents
  failed := fun bad => by cases bad
  index := fun _ => rfl
  ordinals := by simp [Ordinals]
  distinct := List.nodup_nil
  named := List.not_mem_nil

end Index

section Failed
variable {b : Storage}

theorem tom_append_fails {t : Tom} {fault : Option Nat} (fails : t.tomF.good = false ∨ fault.isSome)
    (u : UUID) (d : Payload) :
    ∃ t', t.append u d.bytes fault = (t', .error .writeFailed) ∧ t'.id = t.id ∧
      t'.tomF.good = false := by
  have filled : d.bytes.isEmpty = false := by simpa using d.nonempty
  have bad : ∀ off buf, (t.tomF.write off buf fault).good = false := by
    intro off buf
    unfold FileStream.write
    rcases fails with failed | cut
    · simp [failed]
    · obtain ⟨k, some_⟩ := Option.isSome_iff_exists.mp cut
      rw [some_]
      split
      · rfl
      · rename_i failed
        simpa using failed
  let buf := headerBytes ⟨u,d.bytes.length,0⟩ ++ d.bytes
  refine ⟨⟨t.id,t.size + buf.length,t.tomF.write t.size buf fault⟩, ?_, rfl, bad _ _⟩
  simp only [Tom.append, filled, bad, Bool.false_eq_true, if_false]
  rfl

theorem append_fails {b₁ : Storage} {t : Tom} (found : b.currentTom = (b₁, .ok t))
    (one : b₁.toms = [t]) (current : b₁.currentTomId = firstTom) (id : t.id = firstTom)
    {fault : Option Nat} (fails : t.tomF.good = false ∨ fault.isSome) (u : UUID) (d : Payload) :
    ∃ b', b.append u d.bytes fault = (b', .error .writeFailed) ∧ Failed b' ∧
      b'.index = b₁.index := by
  have filled : d.bytes.isEmpty = false := by simpa using d.nonempty
  obtain ⟨t', written, id', bad⟩ := tom_append_fails fails u d
  refine ⟨b₁.setTom t', ?_, ⟨t', ?_, current, id'.trans id, bad⟩, rfl⟩
  · simp [Storage.append, filled, found, written]
  · simp [Storage.setTom, one, id']

theorem Failed.append (failed : Failed b) (fault : Option Nat) (u : UUID) (d : Payload) :
    ∃ b', b.append u d.bytes fault = (b', .error .writeFailed) ∧ Failed b' ∧
      b'.index = b.index := by
  obtain ⟨t, one, current, id, bad⟩ := failed
  have found : b.currentTom = (b, .ok t) := by
    simp [Storage.currentTom, Storage.tom, one, current, id]
  exact append_fails found one current id (Or.inl bad) u d

theorem append_breaks {log : RecordLog} (rep : Represents b log) {fault : Option Nat}
    (cut : fault.isSome) (u : UUID) (d : Payload) :
    ∃ b', b.append u d.bytes fault = (b', .error .writeFailed) ∧ Failed b' ∧
      b'.index = b.index := by
  obtain ⟨b₁, t, found, one, current, sameIndex, id, intact⟩ := currentTom_filed rep.toms
  rw [← sameIndex]
  exact append_fails found one current id (Or.inr cut) u d

theorem Failed.remove (failed : Failed b) {r : Record} (tom : r.tomId = firstTom)
    (named : r.header.uuid ≠ 0) (unmarked : r.header.deleted = 0) :
    ∃ b' r', b.remove r none = (b', .ok (r', false)) ∧ Failed b' ∧ b'.index = b.index := by
  obtain ⟨t, one, current, id, bad⟩ := failed
  have found : b.tom r.tomId = some t := by simp [Storage.tom, one, tom, id]
  have kept : recoverUuid t r = (t, r.header.uuid) := if_neg named
  have refused : t.remove r none = (t, r, false) := by
    simp [Tom.remove, unmarked, FileStream.write, bad]
  refine ⟨b, r, ?_, ⟨t, one, current, id, bad⟩, rfl⟩
  simp [Storage.remove, found, kept, refused, setTom_same one]

theorem Failed.data (failed : Failed b) {r : Record} (tom : r.tomId = firstTom)
    (filled : r.header.dataSize ≠ 0) :
    ∃ b', b.data r = (b', .error .readDataFailed) ∧ Failed b' ∧ b'.index = b.index := by
  obtain ⟨t, one, current, id, bad⟩ := failed
  have found : b.tom r.tomId = some t := by simp [Storage.tom, one, tom, id]
  have same : ({ t with tomF := { t.tomF with good := false } } : Tom) = t := by
    cases t with
    | mk id size tomF =>
      cases tomF with
      | mk bytes good => simp_all
  refine ⟨b, ?_, ⟨t, one, current, id, bad⟩, rfl⟩
  simp [Storage.data, found, Tom.data, filled, FileStream.read, bad, same, setTom_same one]

theorem Failed.scan (failed : Failed b) :
    ∃ result, b.scan = (b, result) ∧ (result = .ok [] ∨ result = .error .readHeaderFailed) := by
  obtain ⟨t, one, current, id, bad⟩ := failed
  have same : ({ t with tomF := { t.tomF with good := false } } : Tom) = t := by
    cases t with
    | mk id size tomF =>
      cases tomF with
      | mk bytes good => simp_all
  have whole : ({ b with toms := [t] } : Storage) = b := by
    cases b
    simp_all
  by_cases empty : 0 < t.size
  · refine ⟨.error .readHeaderFailed, ?_, Or.inr rfl⟩
    simp [Storage.scan, one, walkToms, walkTom, Tom.record, empty, FileStream.read, bad, same, whole]
  · refine ⟨.ok [], ?_, Or.inl rfl⟩
    simp [Storage.scan, one, walkToms, walkTom, Tom.record, empty, whole]

end Failed

section Ordinals
variable {s : Store α}

theorem append_get {log : Log UUID α} {u : UUID} {d : α} {i : Nat} {e : Entry UUID α} :
    (append log u d)[i]? = some e ↔ log[i]? = some e ∨ i = log.length ∧ e = ⟨u,d,false⟩ := by
  rw [append, List.getElem?_append]
  by_cases inside : i < log.length
  · rw [if_pos inside]
    constructor
    · exact Or.inl
    · intro either
      rcases either with old | ⟨last, _⟩
      · exact old
      · omega
  · have none_ : log[i]? = none := List.getElem?_eq_none_iff.mpr (by omega)
    rw [if_neg inside, none_]
    by_cases last : i = log.length
    · simp [last, eq_comm]
    · have positive : i - log.length ≠ 0 := by omega
      simp [last, positive]

theorem ordinals_appended (ordinals : Ordinals s) {u : UUID} (d : α) (new : u ∉ keys s.log) :
    Ordinals { s with log := append s.log u d,
                      index := Function.update s.index u (some s.log.length) } := by
  intro v i
  simp only [append_get]
  by_cases here : v = u
  · rw [here, Function.update_self, Option.some.injEq]
    constructor
    · intro same
      exact ⟨⟨u,d,false⟩, Or.inr ⟨same.symm, rfl⟩, rfl, rfl⟩
    · intro found
      obtain ⟨e, old | ⟨last, _⟩, key, _⟩ := found
      · exact absurd (List.mem_map.mpr ⟨e, List.mem_of_getElem? old, key⟩) new
      · exact last.symm
  · rw [Function.update_of_ne here, ordinals v i]
    constructor
    · intro found
      obtain ⟨e, old, rest⟩ := found
      exact ⟨e, Or.inl old, rest⟩
    · intro found
      obtain ⟨e, old | ⟨_, last⟩, key, live⟩ := found
      · exact ⟨e, old, key, live⟩
      · rw [last] at key
        exact absurd key.symm here

theorem ordinals_removed (ordinals : Ordinals s) (distinct : (keys s.log).Nodup) {i : Nat}
    {e : Entry UUID α} (here : s.log[i]? = some e) :
    Ordinals { s with log := remove s.log i, index := Function.update s.index e.key none } := by
  intro v j
  simp only [remove, List.getElem?_modify]
  by_cases same : v = e.key
  · rw [same, Function.update_self]
    constructor
    · intro found
      cases found
    · intro found
      obtain ⟨x, at_, key, live⟩ := found
      obtain ⟨y, before, marked⟩ := Option.map_eq_some_iff.mp at_
      have again : y.key = e.key := by
        rw [← key, ← marked]
        split <;> rfl
      have place : j = i := by
        have left : (keys s.log)[j]? = some e.key := by simp [keys, before, again]
        have right : (keys s.log)[i]? = some e.key := by simp [keys, here]
        exact (List.getElem?_inj (List.getElem?_eq_some_iff.mp left).1 distinct).mp
          (left.trans right.symm)
      rw [if_pos place.symm] at marked
      rw [← marked] at live
      cases live
  · rw [Function.update_of_ne same, ordinals v j]
    constructor
    · intro found
      obtain ⟨x, at_, key, live⟩ := found
      have other : i ≠ j := by
        intro equal
        rw [← equal, here, Option.some.injEq] at at_
        exact same (by rw [at_, key])
      exact ⟨x, by simp [at_, other], key, live⟩
    · intro found
      obtain ⟨x, at_, key, live⟩ := found
      obtain ⟨y, before, marked⟩ := Option.map_eq_some_iff.mp at_
      by_cases other : i = j
      · rw [if_pos other] at marked
        rw [← marked] at live
        cases live
      · rw [if_neg other] at marked
        exact ⟨x, by rw [before]; exact congrArg some marked, key, live⟩

theorem reopen_ordinals (distinct : (keys s.log).Nodup) : Ordinals s.reopen := by
  have loop : ∀ (l : List (Entry UUID α × Nat)) (index : UUID → Option Nat) (u : UUID) (i : Nat),
      (l.map fun x => x.1.key).Nodup →
      (l.foldl (fun (index : UUID → Option Nat) x => Function.update index x.1.key (some x.2)) index u =
        some i ↔ (∃ x ∈ l, x.1.key = u ∧ x.2 = i) ∨
          (u ∉ l.map fun x => x.1.key) ∧ index u = some i) := by
    intro l
    induction l with
    | nil => simp
    | cons x l ih =>
      intro index u i once
      rw [List.map_cons, List.nodup_cons] at once
      rw [List.foldl_cons, ih _ u i once.2]
      by_cases here : u = x.1.key
      · subst here
        simp only [Function.update_self, Option.some.injEq, List.map_cons, List.mem_cons, not_or,
          not_true_eq_false, false_and, or_false, exists_eq_or_imp, true_and]
        constructor
        · intro found
          rcases found with later | ⟨_, first⟩
          · exact Or.inr later
          · exact Or.inl first
        · intro found
          rcases found with first | later
          · exact Or.inr ⟨once.1, first⟩
          · exact Or.inl later
      · have other : ¬ x.1.key = u := fun same => here same.symm
        simp [here, other]
  intro u i
  have built := loop (liveRecords s.log) (fun _ => none) u i (liveRecords_distinct distinct)
  refine built.trans ?_
  constructor
  · intro found
    rcases found with ⟨x, member, key, place⟩ | ⟨_, none_⟩
    · obtain ⟨here, live⟩ := mem_liveRecords member
      rw [place] at here
      exact ⟨x.1, here, key, live⟩
    · cases none_
  · intro found
    obtain ⟨e, here, key, live⟩ := found
    refine Or.inl ⟨(e, i), ?_, key, rfl⟩
    simp only [liveRecords, List.mem_filter, live, Bool.not_false, and_true]
    exact List.mem_zipIdx_iff_getElem?.mpr here

end Ordinals

section Calls
variable {encode} {s : Store α} {b : Storage}

theorem append_backed (backed : Backed encode s b) {u : UUID} (d : α) (new : u ∉ keys s.log)
    (real : u ≠ 0) (fault : Option Nat) :
    ∃ b', Backed encode (s.append u d fault.isSome).1 b' ∧
      ((s.append u d fault.isSome).2 = none ∧
          b.append u (encode d).bytes fault = (b', .error .writeFailed) ∨
        (s.append u d fault.isSome).2 = some s.log.length ∧ b.append u (encode d).bytes fault =
          (b', .ok (place encode (s.append u d fault.isSome).1.log s.log.length))) := by
  by_cases ok : s.good ∧ fault.isSome = false
  · obtain ⟨good, works⟩ := ok
    obtain rfl : fault = none := by simpa using works
    have newImage : u ∉ keys (image encode s.log) := by
      rw [keys_image]
      exact new
    obtain ⟨b', done, rep⟩ := append_represents (backed.intact good) (encode d) newImage real
    have grown : append (image encode s.log) u (encode d) = image encode (append s.log u d) := by
      simp [append, image, entryOf]
    rw [grown] at rep
    have stored : s.append u d false = ({ s with
        log := append s.log u d,
        index := Function.update s.index u (some s.log.length) }, some s.log.length) := by
      simp [Store.append, good]
    have distinct := rep.distinct
    have named := rep.named
    rw [keys_image] at distinct named
    rw [Option.isSome_none, stored]
    refine ⟨b', ⟨fun _ => rep, ?_, rep.index, ordinals_appended backed.ordinals d new, distinct,
      named⟩, Or.inr ⟨rfl, ?_⟩⟩
    · intro bad
      rw [good] at bad
      cases bad
    · rw [done]
      exact congrArg (fun r => (b', Except.ok r)) (place_split encode s.log [] ⟨u,d,false⟩).symm
  · have refused : s.append u d fault.isSome = ({ s with good := false }, none) := if_neg ok
    have broken : ∃ b', b.append u (encode d).bytes fault = (b', .error .writeFailed) ∧
        Failed b' ∧ b'.index = b.index := by
      cases good : s.good with
      | false => exact (backed.failed good).append fault u (encode d)
      | true =>
        have cut : fault.isSome = true := by simpa [good, Option.isSome_iff_ne_none] using ok
        exact append_breaks (backed.intact good) cut u (encode d)
    obtain ⟨b', thrown, failed, index⟩ := broken
    rw [refused]
    refine ⟨b', ⟨?_, fun _ => failed, ?_, backed.ordinals, backed.distinct, backed.named⟩,
      Or.inl ⟨rfl, thrown⟩⟩
    · intro bad
      cases bad
    · intro v
      rw [index]
      exact backed.index v

theorem remove_backed (backed : Backed encode s b) {i : Nat} {e : Entry UUID α}
    (here : s.log[i]? = some e) :
    ∃ b' r', b.remove ⟨firstTom,offsetOf (image encode s.log) i,{ uuid := e.key }⟩ none =
        (b', .ok r') ∧ Backed encode (s.remove i e.key) b' := by
  obtain ⟨before, after, split, length⟩ := split_at here
  cases good : s.good with
  | true =>
    have rep := backed.intact good
    rw [split, image_split] at rep
    have points : PointsAt ⟨firstTom,offsetOf (image encode s.log) i,{ uuid := e.key }⟩
        (logBytes (image encode before)).length (entryOf encode e) := by
      refine ⟨rfl, ?_, Or.inl rfl, ?_⟩
      · rw [← length, split, offset_split]
      · intro raised
        exact absurd rfl raised
    obtain ⟨b', r', done, _, rep'⟩ := remove_represents rep points
    have marked : remove s.log i = before ++ { e with removed := true } :: after := by
      rw [split, ← length, remove_split]
    have removed : s.remove i e.key = { s with
        log := remove s.log i, index := Function.update s.index e.key none } := if_pos good
    have images : image encode before ++ { entryOf encode e with removed := true } ::
        image encode after = image encode (remove s.log i) := by
      rw [marked, image_split]
      rfl
    rw [images] at rep'
    refine ⟨b', _, done, ?_⟩
    rw [removed]
    refine ⟨fun _ => rep', ?_, rep'.index, ordinals_removed backed.ordinals backed.distinct here,
      ?_, ?_⟩
    · intro bad
      rw [good] at bad
      cases bad
    · rw [keys_remove]
      exact backed.distinct
    · rw [keys_remove]
      exact backed.named
  | false =>
    have named : e.key ≠ 0 := by
      intro zero
      exact backed.named (zero ▸ List.mem_map_of_mem (List.mem_of_getElem? here))
    obtain ⟨b', r', done, failed, index⟩ := (backed.failed good).remove
      (r := ⟨firstTom,offsetOf (image encode s.log) i,{ uuid := e.key }⟩) rfl named rfl
    have kept : s.remove i e.key = s := by simp [Store.remove, good]
    rw [kept]
    exact ⟨b', _, done, backed.failing good failed index⟩

theorem batch_backed (items : List (UUID × α)) :
    ∀ (s : Store α) (b : Storage) (faults : List (Option Nat)) (fails : Nat → Bool),
      Backed encode s b → (keys s.log ++ items.map Prod.fst).Nodup →
      0 ∉ items.map Prod.fst →
      (∀ i, fails (s.log.length + i) = (faults.getD i none).isSome) →
      Backed encode (s.appendBatch fails items)
        (appendItems b (items.map fun x => (x.1, (encode x.2).bytes)) faults) := by
  induction items with
  | nil => exact fun s b faults fails backed _ _ _ => backed
  | cons x items ih =>
    intro s b faults fails backed distinct named agree
    obtain ⟨u, d⟩ := x
    have new : u ∉ keys s.log := by
      intro inside
      exact (List.nodup_append.mp distinct).2.2 u inside u (by simp) rfl
    have real : u ≠ 0 := by
      intro zero
      exact named (by simp [zero])
    have first : fails s.log.length = (faults.headD none).isSome := by
      have head := agree 0
      rw [Nat.add_zero] at head
      rw [head]
      cases faults <;> rfl
    obtain ⟨b', backed', answer⟩ := append_backed backed d new real (faults.headD none)
    rw [← first] at backed' answer
    rcases answer with ⟨refused, thrown⟩ | ⟨accepted, done⟩
    · rw [appendBatch_refused refused]
      simp only [List.map_cons, appendItems, thrown]
      exact backed'
    · have grown := append_grown accepted
      rw [appendBatch_accepted accepted]
      simp only [List.map_cons, appendItems, done]
      refine ih _ b' faults.tail fails backed' ?_ ?_ ?_
      · rw [grown, keys_append, List.append_assoc]
        exact distinct
      · intro inside
        exact named (List.mem_cons_of_mem u inside)
      · intro i
        rw [grown, append, List.length_append, List.length_singleton, Nat.add_assoc, Nat.add_comm 1 i,
          agree (i + 1)]
        cases faults <;> rfl

end Calls

/-- The calls of the broker on one storage, with the device's answers to their writes. -/
inductive Request (α : Type) where
  | append (uuid : UUID) (data : α) (fault : Option Nat)
  | appendBatch (items : List (UUID × α)) (faults : List (Option Nat))
  | remove (location : Nat) (uuid : UUID)
  | record (uuid : UUID)
  | data (location : Nat)
  | scan

def next (s : Store α) : Request α → Store α
  | .append uuid data fault => (s.append uuid data fault.isSome).1
  | .appendBatch items faults =>
    s.appendBatch (fun n => (faults.getD (n - s.log.length) none).isSome) items
  | .remove location uuid => s.remove location uuid
  | _ => s

def dispatched (s : Store α) (b : Storage) : Request α → Storage × Reply
  | .append uuid data fault => dispatch b [fault] (.append uuid (encode data).bytes)
  | .appendBatch items faults =>
    dispatch b faults (.appendBatch (items.map fun x => (x.1, (encode x.2).bytes)))
  | .remove location uuid =>
    dispatch b [] (.remove ⟨firstTom,offsetOf (image encode s.log) location,{ uuid := uuid }⟩)
  | .record uuid => dispatch b [] (.record uuid)
  | .data location => dispatch b [] (.data (place encode s.log location))
  | .scan => dispatch b [] .scan

/-- New uuids, and locations that the storage has given out. -/
def Asked (s : Store α) : Request α → Prop
  | .append uuid _ _ => uuid ∉ keys s.log ∧ uuid ≠ 0
  | .appendBatch items _ => (keys s.log ++ items.map Prod.fst).Nodup ∧ 0 ∉ items.map Prod.fst
  | .remove location uuid => ∃ e, s.log[location]? = some e ∧ e.key = uuid
  | .data location => ∃ e, s.log[location]? = some e
  | _ => True

/-- What the caller finds in its operation is what the store answers. -/
def Answered (s : Store α) : Request α → Reply → Prop
  | .append uuid data fault, reply =>
    let (s', r) := s.append uuid data fault.isSome
    reply.record = (r.map (place encode s'.log)).getD {}
  | .record uuid, reply => reply.record = ((s.record uuid).map (place encode s.log)).getD {}
  | .data location, reply => reply.data = ((s.data location).map fun d => (encode d).bytes).getD []
  | .scan, reply => reply.scanResult =
      s.scan.map fun x => (place encode s.log x.2, (encode x.1.data).bytes)
  | _, _ => True

theorem data_answered {s : Store α} {b : Storage} (backed : Backed encode s b) {location : Nat}
    {e : Entry UUID α} (here : s.log[location]? = some e) :
    Answered encode s (.data location) (dispatched encode s b (.data location)).2 ∧
      Backed encode s (dispatched encode s b (.data location)).1 := by
  obtain ⟨before, after, split, length⟩ := split_at here
  have placed : place encode s.log location =
      recordFor firstTom (logBytes (image encode before)).length (entryOf encode e) := by
    rw [← length, split, place_split]
  have tom : (place encode s.log location).tomId = firstTom := by
    rw [placed]
    rfl
  cases good : s.good with
  | true =>
    have rep := backed.intact good
    rw [split, image_split] at rep
    have read := data_filed rep.toms tom (by rw [placed]; rfl) (by rw [placed]; rfl)
    simp only [dispatched, dispatch, read, Answered, Store.data, good, if_true, here]
    exact ⟨rfl, backed⟩
  | false =>
    have filled : (place encode s.log location).header.dataSize ≠ 0 := by
      have positive := (encode e.data).length_pos
      rw [placed]
      exact Nat.pos_iff_ne_zero.mp positive
    obtain ⟨b', read, failed, index⟩ := (backed.failed good).data tom filled
    simp only [dispatched, dispatch, read, Answered, Store.data, good]
    exact ⟨rfl, backed.failing good failed index⟩

theorem scan_answered {s : Store α} {b : Storage} (backed : Backed encode s b) :
    Answered encode s .scan (dispatched encode s b .scan).2 ∧
      Backed encode s (dispatched encode s b .scan).1 := by
  cases good : s.good with
  | true =>
    simp only [dispatched, dispatch, scan_filed (backed.intact good).toms, Answered, Store.scan, good,
      if_true]
    exact ⟨liveFrom_image encode s.log, backed⟩
  | false =>
    obtain ⟨result, scanned, nothing⟩ := (backed.failed good).scan
    have empty : (dispatched encode s b .scan).2.scanResult = [] ∧
        (dispatched encode s b .scan).1 = b := by
      simp only [dispatched, dispatch, scanned]
      rcases nothing with ok | thrown
      · simp [ok]
      · simp [thrown]
    constructor
    · simp only [Answered, empty.1, Store.scan, good]
      rfl
    · rw [empty.2]
      exact backed

theorem dispatched_backed {s : Store α} {b : Storage} (backed : Backed encode s b)
    (request : Request α) (asked : Asked s request) :
    Answered encode s request (dispatched encode s b request).2 ∧
      Backed encode (next s request) (dispatched encode s b request).1 := by
  cases request with
  | append u d fault =>
    obtain ⟨b', backed', answer⟩ := append_backed backed d asked.1 asked.2 fault
    rcases answer with ⟨refused, thrown⟩ | ⟨accepted, done⟩
    · simp only [dispatched, dispatch, List.headD_cons, thrown, Answered, refused]
      exact ⟨rfl, backed'⟩
    · simp only [dispatched, dispatch, List.headD_cons, done, Answered, accepted]
      exact ⟨rfl, backed'⟩
  | appendBatch items faults =>
    refine ⟨trivial, batch_backed items s b faults _ backed asked.1 asked.2 ?_⟩
    intro i
    rw [Nat.add_sub_cancel_left]
  | remove location u =>
    obtain ⟨e, here, key⟩ := asked
    obtain ⟨b', r', done, backed'⟩ := remove_backed backed here
    rw [← key]
    simp only [dispatched, dispatch, List.headD_nil, done]
    exact ⟨trivial, backed'⟩
  | record u =>
    refine ⟨?_, backed⟩
    simp only [dispatched, dispatch, Answered, Storage.record, Store.record, backed.index u,
      backed.lookup u]
  | data location =>
    obtain ⟨e, here⟩ := asked
    exact data_answered encode backed here
  | scan => exact scan_answered encode backed

def together (p : Store α × Storage) (request : Request α) : Store α × Storage :=
  (next p.1 request, (dispatched encode p.1 p.2 request).1)

/- From an empty directory on, the bytes on disk follow the store through every run of
   requests, and every caller gets the answer of the store. -/
theorem run_backed {requests : List (Request α)}
    (asked : Meets (together encode) (fun p request => Asked p.1 request) ({}, fresh) requests) :
    (∀ p ∈ states (together encode) ({}, fresh) requests, Backed encode p.1 p.2) ∧
      Meets (together encode) (fun p request => Answered encode p.1 request
        (dispatched encode p.1 p.2 request).2) ({}, fresh) requests := by
  have kept : ∀ (p : Store α × Storage) request, Backed encode p.1 p.2 → Asked p.1 request →
      Backed encode (together encode p request).1 (together encode p request).2 :=
    fun p request backed here => (dispatched_backed encode backed request here).2
  have gives : ∀ (p : Store α × Storage) request, Backed encode p.1 p.2 → Asked p.1 request →
      Answered encode p.1 request (dispatched encode p.1 p.2 request).2 :=
    fun p request backed here => (dispatched_backed encode backed request here).1
  have start : Backed encode ({} : Store α) fresh := backed_empty
  exact ⟨invariant_along kept start asked, meets_along kept gives start asked⟩

theorem reopen_backed {s : Store α} {b : Storage} (backed : Backed encode s b)
    (good : s.good = true) : ∃ b', b.reopen = .ok b' ∧ Backed encode s.reopen b' := by
  obtain ⟨b', opened, rep⟩ := reopen_represents (backed.intact good)
  refine ⟨b', opened, fun _ => rep, ?_, rep.index, reopen_ordinals backed.distinct, backed.distinct,
    backed.named⟩
  intro bad
  cases bad

end TinyMqStoreBacking
