import TinyMq.Storage.Refinement

/-!
`Storage::remove` at any offset. It writes a one where the flag of a record at that
offset would stand, whatever is there: behind the end of the file, in the flag of a
record, or somewhere inside of one. The record loops then find the same live records
unless they read that byte and it was not a one.
-/
namespace TinyMqStrayRemovals
open ByteStrings TombstoneLog TinyMqTom TinyMqStorage TinyMqLogImage TinyMqRefinement

/-- The live records of the storage, as a scan finds them. -/
def found (b : Storage) : Except StorageError (List (Record × Bytes)) := b.scan.2

def setBytes (t : Tom) (bytes : Bytes) : Tom := { t with tomF := { t.tomF with bytes := bytes } }

/-- The bytes of a record with the one written at `q`. -/
def marked (e : Entry UUID Payload) (q : Nat) : Bytes := (entryBytes e).set q 1

/-- What the record loop finds behind the record when its size is read from these bytes. -/
def behind (a : RecordLog) (e : Entry UUID Payload) (c : RecordLog) (q : Nat) :
    Except StorageError (List (Record × Bytes)) :=
  let bytes := logBytes a ++ marked e q ++ logBytes c
  (walkTom scanVisit (bytes.length + 1) ⟨firstTom,bytes.length,⟨bytes,true⟩⟩
    ((logBytes a).length + headerSize + (headerOf (marked e q)).dataSize) []).2

def sizeOffset : Nat := 16

/-- The loops do not miss the byte at `q` of the record `e` between `a` and `c`. It is a one
    already, padding, or the uuid or the data of a removed record, which they do not read; or
    it changes the size of a removed record, and from there they find the records of `c`. -/
def Unread (a : RecordLog) (e : Entry UUID Payload) (c : RecordLog) (q : Nat) : Prop :=
  (entryBytes e)[q]? = some 1 ∨ (deletedOffset < q ∧ q < headerSize) ∨
    e.removed = true ∧ (q < sizeOffset ∨ headerSize ≤ q ∨
      behind a e c q = .ok (liveFrom firstTom ((logBytes a).length + entrySize e) c))

/-- A one at `p` is behind the end of the log or in a byte that the loops do not miss. -/
def Spares (log : RecordLog) (p : Nat) : Prop :=
  ∀ a e c, log = a ++ e :: c → (logBytes a).length ≤ p → p < (logBytes a).length + entrySize e →
    Unread a e c (p - (logBytes a).length)

section Bytes

theorem headerOf_parts {u s rest : Bytes} (uuid : u.length = 16) (size : s.length = 8) (f : UInt8) :
    headerOf (u ++ s ++ [f] ++ rest) = ⟨BitVec.ofNat 128 (leNat u.reverse),leNat s,f⟩ := by
  have first : slice 0 16 (u ++ s ++ [f] ++ rest) = u := by
    simp [slice, uuid]
  have second : slice 16 8 (u ++ s ++ [f] ++ rest) = s := by
    simp [slice, uuid, size]
  have place : (u ++ s).length = deletedOffset := by simp [uuid, size, deletedOffset]
  have layout : u ++ s ++ [f] ++ rest = (u ++ s) ++ f :: rest := by simp
  have third : (u ++ s ++ [f] ++ rest).getD deletedOffset 0 = f := getD_at layout place 0
  unfold headerOf
  rw [first, second, third]

theorem headerOf_append {hd : Bytes} (length : hd.length = headerSize) (rest : Bytes) :
    headerOf (hd ++ rest) = headerOf hd := by
  unfold headerSize at length
  have cut : ∀ off len, off + len ≤ 32 → slice off len (hd ++ rest) = slice off len hd := by
    intro off len inside
    unfold slice
    rw [List.drop_append_of_le_length (by omega), List.take_append_of_le_length (by simp; omega)]
  have flag : (hd ++ rest).getD deletedOffset 0 = hd.getD deletedOffset 0 := by
    rw [List.getD_eq_getElem?_getD, List.getD_eq_getElem?_getD,
      List.getElem?_append_left (by simp only [deletedOffset]; omega)]
  unfold headerOf
  rw [cut 0 16 (by omega), cut 16 8 (by omega), flag]

end Bytes

section Walk
variable {t : Tom}

/-- What a scan takes from a record with this header and data. -/
def listed (offset : Nat) (h : Header) (data : Bytes) : List (Record × Bytes) :=
  if h.deleted = 0 then [(⟨firstTom,offset,h⟩, data)] else []

theorem record_size (t : Tom) (offset : Nat) : (t.record offset).1.size = t.size := by
  unfold Tom.record
  split
  · dsimp only
    split <;> rfl
  · rfl

theorem data_size (t : Tom) (r : Record) : (t.data r).1.size = t.size := by
  unfold Tom.data
  split
  · rfl
  · dsimp only
    split <;> rfl

theorem scanVisit_eq (t : Tom) (r : Record) (acc : List (Record × Bytes)) :
    scanVisit t r acc = ((t.data r).1, acc ++ (scanVisit t r []).2) := by
  unfold scanVisit
  cases t.data r with
  | mk t' result =>
    cases result with
    | error e => simp
    | ok data => simp

theorem walk_acc (fuel : Nat) (t : Tom) (offset : Nat) (acc : List (Record × Bytes)) :
    (walkTom scanVisit fuel t offset acc).2 =
      (walkTom scanVisit fuel t offset []).2.map (acc ++ ·) := by
  induction fuel generalizing t offset acc with
  | zero => simp [walkTom, Except.map]
  | succ fuel ih =>
    unfold walkTom
    cases t.record offset with
    | mk t' result =>
      cases result with
      | error e => rfl
      | ok r =>
        dsimp only
        split
        · simp [Except.map]
        · split
          · have left : (scanVisit t' r []).1 = (t'.data r).1 := by rw [scanVisit_eq]
            rw [scanVisit_eq t' r acc]
            dsimp only
            rw [ih, ih _ _ (scanVisit t' r []).2, left]
            cases (walkTom scanVisit fuel (t'.data r).1 (offset + headerSize + r.header.dataSize) []).2 with
            | error e => rfl
            | ok l => simp [Except.map]
          · exact ih _ _ _

theorem walk_end {offset : Nat} (end_ : t.size ≤ offset) (fuel : Nat)
    (acc : List (Record × Bytes)) : walkTom scanVisit fuel t offset acc = (t, .ok acc) := by
  cases fuel with
  | zero => rfl
  | succ fuel => simp [walkTom, record_behind_end end_]

theorem walk_enough {fuel fuel' : Nat} {t : Tom} {offset : Nat} (acc : List (Record × Bytes))
    (enough : t.size < offset + fuel) (enough' : t.size < offset + fuel') :
    (walkTom scanVisit fuel t offset acc).2 = (walkTom scanVisit fuel' t offset acc).2 := by
  induction fuel generalizing fuel' t offset acc with
  | zero => rw [walk_end (by omega), walk_end (by omega)]
  | succ fuel ih =>
    cases fuel' with
    | zero => rw [walk_end (by omega), walk_end (by omega)]
    | succ fuel' =>
      unfold walkTom
      have size := record_size t offset
      cases read : t.record offset with
      | mk t' result =>
        rw [read] at size
        dsimp only at size
        cases result with
        | error e => rfl
        | ok r =>
          dsimp only
          split
          · rfl
          · have next : ∀ (t'' : Tom) (acc : List (Record × Bytes)), t''.size = t.size →
                (walkTom scanVisit fuel t'' (offset + headerSize + r.header.dataSize) acc).2 =
                  (walkTom scanVisit fuel' t'' (offset + headerSize + r.header.dataSize) acc).2 := by
              intro t'' acc same
              refine ih acc ?_ ?_
              · rw [same]
                simp only [headerSize]
                omega
              · rw [same]
                simp only [headerSize]
                omega
            split
            · rw [scanVisit_eq]
              exact next _ _ ((data_size t' r).trans size)
            · exact next _ _ size

theorem walk_from {fuel : Nat} {t : Tom} {offset : Nat} {acc l : List (Record × Bytes)}
    (done : (walkTom scanVisit fuel t offset acc).2 = .ok l) :
    ∀ x ∈ l, x ∈ acc ∨ offset ≤ x.1.offset := by
  induction fuel generalizing t offset acc with
  | zero =>
    intro x inside
    rw [← Except.ok.inj done] at inside
    exact .inl inside
  | succ fuel ih =>
    unfold walkTom at done
    cases read : t.record offset with
    | mk t' result =>
      rw [read] at done
      cases result with
      | error e => cases done
      | ok r =>
        dsimp only at done
        split at done
        · intro x inside
          rw [← Except.ok.inj done] at inside
          exact .inl inside
        · rename_i goes
          have here : r.offset = offset := by
            unfold Tom.record at read
            split at read
            · dsimp only at read
              split at read
              · have same := Except.ok.inj (Prod.mk.inj read).2
                rw [← same]
              · cases (Prod.mk.inj read).2
            · have same := Except.ok.inj (Prod.mk.inj read).2
              rw [← same] at goes
              exact absurd (Or.inl rfl) goes
          split at done
          · rw [scanVisit_eq] at done
            intro x inside
            rcases ih done x inside with old | later
            · rcases List.mem_append.mp old with before | new
              · exact .inl before
              · right
                unfold scanVisit at new
                cases data : t'.data r with
                | mk t'' result =>
                  rw [data] at new
                  cases result with
                  | error e => cases new
                  | ok bytes =>
                    dsimp only at new
                    rw [List.nil_append, List.mem_singleton] at new
                    rw [new]
                    exact Nat.le_of_eq here.symm
            · right
              omega
          · intro x inside
            rcases ih done x inside with old | later
            · exact .inl old
            · right
              omega

theorem walk_record {before hd data after : Bytes} (good : t.tomF.good = true)
    (first : t.id = firstTom) (bytes : t.tomF.bytes = before ++ hd ++ data ++ after)
    (length : hd.length = headerSize) (sized : (headerOf hd).dataSize = data.length)
    (filled : data ≠ []) (inside : before.length < t.size) (fuel : Nat)
    (acc : List (Record × Bytes)) :
    walkTom scanVisit (fuel + 1) t before.length acc =
      walkTom scanVisit fuel t (before.length + headerSize + data.length)
        (acc ++ listed before.length (headerOf hd) data) := by
  have layout : t.tomF.bytes = before ++ hd ++ (data ++ after) := by
    rw [bytes, List.append_assoc]
  have layout' : t.tomF.bytes = (before ++ hd) ++ data ++ after := bytes
  have read := read_inside good layout
  have read' := read_inside good layout'
  rw [length] at read
  rw [List.length_append, length] at read'
  have some_ : data.length ≠ 0 := fun none_ => filled (List.length_eq_zero_iff.mp none_)
  have here : t.record before.length = (t, .ok ⟨t.id,before.length,headerOf hd⟩) := by
    simp only [Tom.record, if_pos inside, read, good, if_true]
  rw [first] at here
  have there : t.data ⟨firstTom,before.length,headerOf hd⟩ = (t, .ok data) := by
    simp only [Tom.data, sized, if_neg some_, read', good, if_true]
  have goes : ¬ (firstTom = noTom ∨ data.length = 0) := by
    rintro (none_ | none_)
    · exact firstTom_real none_
    · exact some_ none_
  simp only [walkTom, here, sized, if_neg goes]
  unfold listed
  split
  · simp only [scanVisit, there]
  · rw [List.append_nil]

theorem headerOf_entry (e : Entry UUID Payload) : headerOf (headerBytes (headerFor e)) = headerFor e :=
  headerOf_headerBytes e.data.bounded

theorem listed_entry (offset : Nat) (e : Entry UUID Payload) :
    listed offset (headerFor e) e.data.bytes =
      if e.removed then [] else [(recordFor firstTom offset e, e.data.bytes)] := by
  cases removed : e.removed <;> simp [listed, headerFor, flagOf, removed, recordFor]

/- Over the bytes of a log, also when the file goes on behind what the tom takes for its end. -/
theorem walk_kept (good : t.tomF.good = true) (first : t.id = firstTom) (log : RecordLog)
    {before tail : Bytes} (bytes : t.tomF.bytes = before ++ logBytes log ++ tail)
    (inside : before.length + (logBytes log).length ≤ t.size) (fuel : Nat)
    (acc : List (Record × Bytes)) :
    walkTom scanVisit (log.length + fuel) t before.length acc =
      walkTom scanVisit fuel t (before.length + (logBytes log).length)
        (acc ++ liveFrom firstTom before.length log) := by
  induction log generalizing before acc with
  | nil => simp [liveFrom]
  | cons e rest ih =>
    have large := entrySize_large e
    rw [logBytes_cons, List.length_append, entryBytes_length] at inside
    have split : t.tomF.bytes =
        before ++ headerBytes (headerFor e) ++ e.data.bytes ++ (logBytes rest ++ tail) := by
      rw [bytes, logBytes_cons, entryBytes]
      simp only [List.append_assoc]
    have one := walk_record good first split (headerBytes_length _)
      (by rw [headerOf_entry]; rfl) e.data.nonempty (by omega) (rest.length + fuel) acc
    have size : before.length + headerSize + e.data.bytes.length = (before ++ entryBytes e).length := by
      simp only [List.length_append, entryBytes_length, entrySize]
      omega
    have layout : t.tomF.bytes = before ++ entryBytes e ++ logBytes rest ++ tail := by
      rw [bytes]
      simp
    have room : (before ++ entryBytes e).length + (logBytes rest).length ≤ t.size := by
      simpa [Nat.add_assoc] using inside
    have later := ih layout room (acc ++ listed before.length (headerFor e) e.data.bytes)
    have spent : (e :: rest).length + fuel = (rest.length + fuel) + 1 := by
      simp only [List.length_cons]
      omega
    rw [spent, one, headerOf_entry, size, later, listed_entry]
    have total : (before ++ entryBytes e).length + (logBytes rest).length =
        before.length + (logBytes (e :: rest)).length := by
      simp only [List.length_append, logBytes_cons]
      omega
    rw [total]
    cases removed : e.removed <;> simp [liveFrom, removed]

end Walk

section Zones
variable {e : Entry UUID Payload} {q : Nat}

/-- The bytes of the record with the one at `q` are this header and this data. -/
def Marked (e : Entry UUID Payload) (q : Nat) (h : Header) (data : Bytes) : Prop :=
  ∃ hd, marked e q = hd ++ data ∧ hd.length = headerSize ∧ headerOf hd = h

/-- Where a byte that is no one yet lies in the record, and what the record is with a one there. -/
inductive Zone (e : Entry UUID Payload) (q : Nat) : Prop
  | uuid (place : q < sizeOffset) (u : UUID) (new : u ≠ e.key)
      (becomes : Marked e q ⟨u,e.data.bytes.length,flagOf e.removed⟩ e.data.bytes)
  | size (place : sizeOffset ≤ q) (place' : q < deletedOffset) (n : Nat) (filled : n ≠ 0)
      (new : n ≠ e.data.bytes.length)
      (becomes : Marked e q ⟨e.key,n,flagOf e.removed⟩ e.data.bytes)
  | flag (place : q = deletedOffset) (live : e.removed = false)
      (becomes : Marked e q ⟨e.key,e.data.bytes.length,1⟩ e.data.bytes)
  | padding (place : deletedOffset < q) (place' : q < headerSize)
      (becomes : Marked e q (headerFor e) e.data.bytes)
  | data (place : headerSize ≤ q) (d : Bytes) (new : d ≠ e.data.bytes)
      (length : d.length = e.data.bytes.length) (becomes : Marked e q (headerFor e) d)

theorem set_other {bs : Bytes} {i : Nat} (inside : i < bs.length) (fresh : bs[i]? ≠ some 1) :
    bs.set i 1 ≠ bs := by
  intro same
  refine fresh ?_
  rw [← same, List.getElem?_set_self inside]

theorem uuid_of_bytes {u : Bytes} {key : UUID} (length : u.length = 16)
    (same : BitVec.ofNat 128 (leNat u.reverse) = key) : u = (leBytes 16 key.toNat).reverse := by
  have small : leNat u.reverse < 2 ^ 128 := by
    have bound := leNat_lt u.reverse
    rw [List.length_reverse, length] at bound
    omega
  have word : key.toNat < 256 ^ 16 := by
    have := key.isLt
    omega
  have equal : leNat u.reverse = leNat (leBytes 16 key.toNat) := by
    rw [leNat_leBytes word, ← same, BitVec.toNat_ofNat, Nat.mod_eq_of_lt small]
  have bytes := leNat_inj (by simp [length]) equal
  rw [← bytes, List.reverse_reverse]

theorem entry_parts (e : Entry UUID Payload) : ∃ u s : Bytes, u.length = 16 ∧ s.length = 8 ∧
    u = (leBytes 16 e.key.toNat).reverse ∧ s = leBytes 8 e.data.bytes.length ∧
    entryBytes e = u ++ (s ++ ([flagOf e.removed] ++ (List.replicate 7 0 ++ e.data.bytes))) := by
  refine ⟨_, _, by simp, by simp, rfl, rfl, ?_⟩
  simp only [entryBytes, headerFor, headerBytes, List.append_assoc]

theorem zone_of (inside : q < entrySize e) (fresh : (entryBytes e)[q]? ≠ some 1) : Zone e q := by
  obtain ⟨u, s, uuid, size, key, count, parts⟩ := entry_parts e
  have word : e.key.toNat < 256 ^ 16 := by
    have := e.key.isLt
    omega
  have fits : e.data.bytes.length < 256 ^ 8 := by
    have := e.data.bounded
    omega
  have key' : BitVec.ofNat 128 (leNat u.reverse) = e.key := by
    rw [key, List.reverse_reverse, leNat_leBytes word, BitVec.ofNat_toNat, BitVec.setWidth_eq]
  have count' : leNat s = e.data.bytes.length := by
    rw [count, leNat_leBytes fits]
  -- a header and data in place of the record's own
  have becomes : ∀ (u' s' rest d : Bytes) (f : UInt8), u'.length = 16 → s'.length = 8 →
      rest.length = 7 → (entryBytes e).set q 1 = u' ++ (s' ++ ([f] ++ (rest ++ d))) →
      Marked e q ⟨BitVec.ofNat 128 (leNat u'.reverse),leNat s',f⟩ d := by
    intro u' s' rest d f first second third shape
    refine ⟨u' ++ s' ++ [f] ++ rest, ?_, ?_, headerOf_parts first second f⟩
    · simpa [marked] using shape
    · simp [first, second, third, headerSize]
  rw [parts] at fresh becomes
  unfold entrySize headerSize at inside
  by_cases first : q < 16
  · rw [List.getElem?_append_left (by omega)] at fresh
    have new := set_other (by omega) fresh
    have shape := becomes (u.set q 1) s (List.replicate 7 0) e.data.bytes (flagOf e.removed)
      (by simp [uuid]) size (by simp) (by rw [List.set_append_left _ _ (by omega)])
    rw [count'] at shape
    refine .uuid first _ ?_ shape
    intro same
    refine new ?_
    rw [uuid_of_bytes (by simp [uuid]) same, key]
  rw [List.getElem?_append_right (by omega), uuid] at fresh
  by_cases second : q < 24
  · rw [List.getElem?_append_left (by omega)] at fresh
    have new := set_other (by omega) fresh
    have shape := becomes u (s.set (q - 16) 1) (List.replicate 7 0) e.data.bytes (flagOf e.removed)
      uuid (by simp [size]) (by simp)
      (by rw [List.set_append_right _ _ (by omega), uuid, List.set_append_left _ _ (by omega)])
    rw [key'] at shape
    refine .size (by simp only [sizeOffset]; omega) second _ ?_ ?_ shape
    · intro zero
      have one : (1 : UInt8) ∈ s.set (q - 16) 1 :=
        List.mem_set (by omega) 1
      exact absurd (leNat_zero zero 1 one) (by decide)
    · intro same
      rw [← count'] at same
      exact new (leNat_inj (by simp) same)
  rw [List.getElem?_append_right (by omega), size] at fresh
  by_cases third : q = 24
  · subst third
    have live : e.removed = false := by
      cases removed : e.removed with
      | false => rfl
      | true => simp [removed, flagOf] at fresh
    have shape := becomes u s (List.replicate 7 0) e.data.bytes 1 uuid size (by simp)
      (by rw [List.set_append_right _ _ (by omega), uuid, List.set_append_right _ _ (by omega), size]; rfl)
    rw [key', count'] at shape
    exact .flag rfl live shape
  rw [List.getElem?_append_right (by simp; omega)] at fresh
  by_cases fourth : q < 32
  · have shape := becomes u s ((List.replicate 7 0).set (q - 25) 1) e.data.bytes (flagOf e.removed)
      uuid size (by simp)
      (by
        rw [List.set_append_right _ _ (by omega), uuid, List.set_append_right _ _ (by omega), size,
          List.set_append_right _ _ (by simp; omega), List.set_append_left _ _ (by simp; omega)]
        congr 5)
    rw [key', count'] at shape
    exact .padding (by simp only [deletedOffset]; omega) fourth shape
  · rw [List.getElem?_append_right (by simp; omega)] at fresh
    simp only [List.length_replicate, List.length_singleton] at fresh
    have shape := becomes u s (List.replicate 7 0) (e.data.bytes.set (q - 16 - 8 - 1 - 7) 1)
      (flagOf e.removed) uuid size (by simp)
      (by
        rw [List.set_append_right _ _ (by omega), uuid, List.set_append_right _ _ (by omega), size,
          List.set_append_right _ _ (by simp; omega), List.set_append_right _ _ (by simp; omega)]
        simp)
    rw [key', count'] at shape
    exact .data (by simp only [headerSize]; omega) _ (set_other (by omega) fresh) (by simp) shape

end Zones

section Written
variable {a c : RecordLog} {e : Entry UUID Payload} {q : Nat}

def writtenTom (a : RecordLog) (e : Entry UUID Payload) (c : RecordLog) (q : Nat) : Tom :=
  let bytes := logBytes a ++ marked e q ++ logBytes c
  ⟨firstTom,bytes.length,⟨bytes,true⟩⟩

@[simp] theorem marked_length (e : Entry UUID Payload) (q : Nat) :
    (marked e q).length = entrySize e := by
  simp [marked]

theorem written_good : (writtenTom a e c q).tomF.good = true := rfl

theorem written_first : (writtenTom a e c q).id = firstTom := rfl

theorem written_size : (writtenTom a e c q).size =
    (logBytes a).length + entrySize e + (logBytes c).length := by
  simp [writtenTom]
  omega

theorem live_split (offset : Nat) (a c : RecordLog) (e : Entry UUID Payload) :
    liveFrom firstTom offset (a ++ e :: c) = liveFrom firstTom offset a ++
      listed (offset + (logBytes a).length) (headerFor e) e.data.bytes ++
        liveFrom firstTom (offset + (logBytes a).length + entrySize e) c := by
  rw [liveFrom_append, listed_entry]
  cases removed : e.removed <;> simp [liveFrom, removed]

theorem walk_before (a : RecordLog) (e : Entry UUID Payload) (c : RecordLog) (q : Nat) :
    ∃ fuel, (writtenTom a e c q).size < (logBytes a).length + headerSize + fuel ∧
      c.length < fuel ∧
      walkTom scanVisit ((writtenTom a e c q).size + 1) (writtenTom a e c q) 0 [] =
        walkTom scanVisit (fuel + 1) (writtenTom a e c q) (logBytes a).length
          (liveFrom firstTom 0 a) := by
  have large := entrySize_large e
  have first := log_length_le_bytes a
  have last := log_length_le_bytes c
  have size := @written_size a c e q
  refine ⟨(writtenTom a e c q).size - a.length, by unfold headerSize; omega, by omega, ?_⟩
  have bytes : (writtenTom a e c q).tomF.bytes =
      [] ++ logBytes a ++ (marked e q ++ logBytes c) := by simp [writtenTom]
  have walked := walk_kept written_good written_first a bytes (by rw [size]; simp; omega)
    ((writtenTom a e c q).size - a.length + 1) []
  have spent : a.length + ((writtenTom a e c q).size - a.length + 1) =
      (writtenTom a e c q).size + 1 := by omega
  rw [spent] at walked
  simpa using walked

theorem written_sized {h : Header} {data : Bytes} (becomes : Marked e q h data)
    (size : h.dataSize = e.data.bytes.length) (length : data.length = e.data.bytes.length) :
    (walkTom scanVisit ((writtenTom a e c q).size + 1) (writtenTom a e c q) 0 []).2 =
      .ok (liveFrom firstTom 0 a ++ listed (logBytes a).length h data ++
        liveFrom firstTom ((logBytes a).length + entrySize e) c) := by
  obtain ⟨fuel, -, enough, walked⟩ := walk_before a e c q
  obtain ⟨hd, shape, room, read⟩ := becomes
  have filled : data ≠ [] := by
    rintro rfl
    have := e.data.length_pos
    simp at length
    omega
  have total := @written_size a c e q
  have large := entrySize_large e
  have bytes : (writtenTom a e c q).tomF.bytes = logBytes a ++ hd ++ data ++ logBytes c := by
    simp [writtenTom, shape]
  have one := walk_record written_good written_first bytes room (by rw [read, size, length])
    filled (by omega) fuel (liveFrom firstTom 0 a)
  have next : (logBytes a).length + headerSize + data.length = (logBytes a ++ marked e q).length := by
    simp [length, entrySize]
    omega
  obtain ⟨left, spent⟩ := Nat.exists_eq_add_of_lt enough
  have bytes' : (writtenTom a e c q).tomF.bytes =
      (logBytes a ++ marked e q) ++ logBytes c ++ [] := by simp [writtenTom]
  have rest := walk_kept written_good written_first c bytes' (by rw [total]; simp) (left + 1)
    (liveFrom firstTom 0 a ++ listed (logBytes a).length h data)
  have end_ : (writtenTom a e c q).size ≤ (logBytes a ++ marked e q).length + (logBytes c).length := by
    rw [total]
    simp
  rw [walked, one, read, next]
  have fuel_ : fuel = c.length + (left + 1) := by omega
  rw [fuel_, rest, walk_end end_]
  simp

theorem liveFrom_before (offset : Nat) (log : RecordLog) :
    ∀ x ∈ liveFrom firstTom offset log, x.1.offset < offset + (logBytes log).length := by
  induction log generalizing offset with
  | nil => simp [liveFrom]
  | cons e rest ih =>
    have large := entrySize_large e
    have later : ∀ x ∈ liveFrom firstTom (offset + entrySize e) rest,
        x.1.offset < offset + (logBytes (e :: rest)).length := by
      intro x inside
      have := ih _ x inside
      simp only [logBytes_cons, List.length_append, entryBytes_length]
      omega
    intro x inside
    unfold liveFrom at inside
    split at inside
    · exact later x inside
    · rcases List.mem_cons.mp inside with rfl | inside
      · simp only [recordFor, logBytes_cons, List.length_append, entryBytes_length]
        omega
      · exact later x inside

theorem written_resized {n : Nat} (filled : n ≠ 0) (new : n ≠ e.data.bytes.length)
    (becomes : Marked e q ⟨e.key,n,flagOf e.removed⟩ e.data.bytes) :
    (walkTom scanVisit ((writtenTom a e c q).size + 1) (writtenTom a e c q) 0 []).2 =
        .ok (liveFrom firstTom 0 (a ++ e :: c)) ↔
      e.removed = true ∧
        behind a e c q = .ok (liveFrom firstTom ((logBytes a).length + entrySize e) c) := by
  obtain ⟨fuel, most, enough, walked⟩ := walk_before a e c q
  obtain ⟨hd, shape, room, read⟩ := becomes
  have large := entrySize_large e
  have total := @written_size a c e q
  have layout : (writtenTom a e c q).tomF.bytes =
      logBytes a ++ hd ++ (e.data.bytes ++ logBytes c) := by
    simp [writtenTom, shape]
  have seen := read_inside (f := (writtenTom a e c q).tomF) rfl layout
  rw [room] at seen
  have inside : (logBytes a).length < (writtenTom a e c q).size := by omega
  have here : (writtenTom a e c q).record (logBytes a).length = (writtenTom a e c q, .ok
      ⟨firstTom,(logBytes a).length,⟨e.key,n,flagOf e.removed⟩⟩) := by
    simp only [Tom.record, if_pos inside, seen, read]
    rfl
  have goes : ¬ (firstTom = noTom ∨ n = 0) := by
    rintro (none_ | zero)
    · exact firstTom_real none_
    · exact filled zero
  have size : (headerOf (marked e q)).dataSize = n := by
    rw [shape, headerOf_append room, read]
  cases removed : e.removed with
  | true =>
    have flag : flagOf true ≠ 0 := by decide
    have step : (walkTom scanVisit ((writtenTom a e c q).size + 1) (writtenTom a e c q) 0 []).2 =
        (behind a e c q).map (liveFrom firstTom 0 a ++ ·) := by
      rw [walked]
      rw [removed] at here
      simp only [walkTom, here, if_neg goes, if_neg flag]
      have whole : (writtenTom a e c q).size <
          (logBytes a).length + headerSize + n + ((writtenTom a e c q).size + 1) := by omega
      rw [walk_enough _ (by omega) whole, walk_acc]
      unfold behind
      rw [size]
      rfl
    rw [step, live_split, listed_entry, removed]
    simp only [if_true, List.append_nil, Nat.zero_add, true_and]
    cases behind a e c q with
    | error e => simp [Except.map]
    | ok l => simp [Except.map]
  | false =>
    refine iff_of_false ?_ (by simp)
    intro same
    have member : (recordFor firstTom (logBytes a).length e, e.data.bytes) ∈
        liveFrom firstTom 0 (a ++ e :: c) := by
      rw [live_split, listed_entry, removed]
      simp
    rw [walked] at same
    rw [removed] at here
    have flag : flagOf false = 0 := rfl
    simp only [walkTom, here, if_neg goes, flag, if_true] at same
    rw [scanVisit_eq] at same
    rcases walk_from same _ member with old | later
    · rcases List.mem_append.mp old with before | own
      · have := liveFrom_before 0 a _ before
        simp [recordFor] at this
      · unfold scanVisit at own
        split at own
        · cases own
        · rw [List.nil_append, List.mem_singleton] at own
          have header := congrArg (fun x => x.1.header.dataSize) own
          exact new header.symm
    · simp only [recordFor, headerSize] at later
      omega

end Written

section Removal
variable {log : RecordLog}

theorem split_bytes {log : RecordLog} {p : Nat} (inside : p < (logBytes log).length) :
    ∃ a e c, log = a ++ e :: c ∧ (logBytes a).length ≤ p ∧
      p < (logBytes a).length + entrySize e := by
  induction log generalizing p with
  | nil => simp at inside
  | cons e rest ih =>
    by_cases here : p < entrySize e
    · exact ⟨[], e, rest, rfl, by simp, by simpa using here⟩
    · have later : p - entrySize e < (logBytes rest).length := by
        simp only [logBytes_cons, List.length_append, entryBytes_length] at inside
        omega
      obtain ⟨a, e', c, split, low, high⟩ := ih later
      refine ⟨e :: a, e', c, by rw [split]; rfl, ?_, ?_⟩
      · simp only [logBytes_cons, List.length_append, entryBytes_length]
        omega
      · simp only [logBytes_cons, List.length_append, entryBytes_length]
        omega

theorem listed_inj {offset : Nat} {h h' : Header} {data data' : Bytes} (live : h.deleted = 0)
    (same : listed offset h' data' = listed offset h data) : h' = h ∧ data' = data := by
  unfold listed at same
  rw [if_pos live] at same
  split at same
  · simpa using same
  · cases same

theorem written_same_iff {a c : RecordLog} {e : Entry UUID Payload} {q : Nat}
    (inside : q < entrySize e) :
    (walkTom scanVisit ((writtenTom a e c q).size + 1) (writtenTom a e c q) 0 []).2 =
        .ok (liveFrom firstTom 0 (a ++ e :: c)) ↔ Unread a e c q := by
  by_cases one : (entryBytes e)[q]? = some 1
  · have bytes : marked e q = entryBytes e := by
      unfold marked
      obtain ⟨here, value⟩ := List.getElem?_eq_some_iff.mp one
      rw [← value, List.set_getElem_self]
    refine iff_of_true ?_ (.inl one)
    have becomes : Marked e q (headerFor e) e.data.bytes :=
      ⟨headerBytes (headerFor e), by rw [bytes]; rfl, headerBytes_length _, headerOf_entry e⟩
    rw [written_sized becomes rfl rfl, live_split]
    simp
  · -- the scan in the four zones that keep the size
    have sized : ∀ {h : Header} {data : Bytes}, Marked e q h data → h.dataSize = e.data.bytes.length →
        data.length = e.data.bytes.length →
        ((walkTom scanVisit ((writtenTom a e c q).size + 1) (writtenTom a e c q) 0 []).2 =
          .ok (liveFrom firstTom 0 (a ++ e :: c)) ↔
        listed (logBytes a).length h data =
          listed (logBytes a).length (headerFor e) e.data.bytes) := by
      intro h data becomes size length
      rw [written_sized becomes size length, live_split]
      simp
    have visible : e.removed = false → (headerFor e).deleted = 0 := by
      intro live
      simp [headerFor, flagOf, live]
    have hidden : ∀ h data, e.removed = true → h.deleted ≠ 0 →
        listed (logBytes a).length h data =
          listed (logBytes a).length (headerFor e) e.data.bytes := by
      intro h data removed flag
      simp [listed, flag, headerFor, removed, flagOf]
    unfold Unread
    cases zone_of inside one with
    | uuid place u new becomes =>
      rw [sized becomes rfl rfl]
      cases removed : e.removed with
      | true => exact iff_of_true (hidden _ _ removed (by simp [flagOf])) (.inr (.inr ⟨rfl, .inl place⟩))
      | false =>
        refine iff_of_false ?_ ?_
        · intro same
          exact new (congrArg Header.uuid (listed_inj (visible removed) same).1)
        · simp only [sizeOffset] at place
          simp only [one, deletedOffset]
          simp
          omega
    | size place place' n filled new becomes =>
      rw [written_resized filled new becomes]
      simp only [sizeOffset, deletedOffset, headerSize] at place place' ⊢
      constructor
      · rintro ⟨removed, rest⟩
        exact .inr (.inr ⟨removed, .inr (.inr rest)⟩)
      · rintro (same | padding | ⟨removed, low | high | rest⟩)
        · exact absurd same one
        · omega
        · omega
        · omega
        · exact ⟨removed, rest⟩
    | flag place live becomes =>
      rw [sized becomes rfl rfl]
      refine iff_of_false ?_ ?_
      · intro same
        have header := congrArg Header.deleted (listed_inj (visible live) same).1
        rw [visible live] at header
        cases header
      · rintro (same | padding | ⟨gone, -⟩)
        · exact one same
        · omega
        · rw [live] at gone
          cases gone
    | padding place place' becomes =>
      rw [sized becomes rfl rfl]
      exact iff_of_true rfl (.inr (.inl ⟨place, place'⟩))
    | data place d new length becomes =>
      rw [sized becomes rfl length]
      cases removed : e.removed with
      | true => exact iff_of_true (hidden _ _ removed (by simp [headerFor, removed, flagOf])) (.inr (.inr ⟨rfl, .inr (.inl place)⟩))
      | false =>
        refine iff_of_false ?_ ?_
        · intro same
          exact new (listed_inj (visible removed) same).2
        · rintro (same | padding | ⟨gone, -⟩)
          · exact one same
          · omega
          · cases gone

theorem spares_behind {p : Nat} (past : (logBytes log).length ≤ p) : Spares log p := by
  intro a e c split low high
  have image : logBytes log = logBytes a ++ (entryBytes e ++ logBytes c) := by
    rw [split, logBytes_append, logBytes_cons]
  have length := congrArg List.length image
  simp only [List.length_append, entryBytes_length] at length
  omega

theorem overwritten_same_iff {t : Tom} (intact : Intact t (logBytes log)) (first : t.id = firstTom)
    (p : Nat) :
    (walkTom scanVisit (t.size + 1) (setBytes t (overwrite t.tomF.bytes p [1])) 0 []).2 =
        .ok (liveFrom firstTom 0 log) ↔ Spares log p := by
  have bytes := intact.content
  have size := intact.sized
  by_cases inside : p < (logBytes log).length
  · have one : ∀ {a c : RecordLog} {e : Entry UUID Payload}, log = a ++ e :: c →
        (logBytes a).length ≤ p → p < (logBytes a).length + entrySize e →
        ((walkTom scanVisit (t.size + 1) (setBytes t (overwrite t.tomF.bytes p [1])) 0 []).2 =
          .ok (liveFrom firstTom 0 log) ↔ Unread a e c (p - (logBytes a).length)) := by
      intro a c e split low high
      have image : logBytes log = logBytes a ++ (entryBytes e ++ logBytes c) := by
        rw [split, logBytes_append, logBytes_cons]
      have same : setBytes t (overwrite t.tomF.bytes p [1]) =
          writtenTom a e c (p - (logBytes a).length) := by
        have cut : overwrite t.tomF.bytes p [1] =
            logBytes a ++ marked e (p - (logBytes a).length) ++ logBytes c := by
          rw [bytes, overwrite_set inside, image, List.set_append_right _ _ low,
            List.set_append_left _ _ (by rw [entryBytes_length]; omega), List.append_assoc]
          rfl
        have length : t.size = (logBytes a ++ marked e (p - (logBytes a).length) ++
            logBytes c).length := by
          rw [size, image]
          simp
        unfold setBytes writtenTom
        rw [cut, ← first]
        dsimp only
        rw [← length, intact.good]
      have length : t.size = (writtenTom a e c (p - (logBytes a).length)).size := by
        rw [← same]
        rfl
      rw [same, length, split]
      exact written_same_iff (by omega)
    constructor
    · intro same a e c split low high
      exact (one split low high).mp same
    · intro spares
      obtain ⟨a, e, c, split, low, high⟩ := split_bytes inside
      exact (one split low high).mpr (spares a e c split low high)
  · obtain ⟨tail, longer⟩ := overwrite_behind (d := [1]) (Nat.le_of_not_lt inside)
    refine iff_of_true ?_ ?_
    · have bound := log_length_le_bytes log
      have layout : (setBytes t (overwrite t.tomF.bytes p [1])).tomF.bytes =
          [] ++ logBytes log ++ tail := by
        simp [setBytes, bytes, longer]
      have room : ([] : Bytes).length + (logBytes log).length ≤
          (setBytes t (overwrite t.tomF.bytes p [1])).size := by
        simp [setBytes, size]
      have walked := walk_kept (t := setBytes t (overwrite t.tomF.bytes p [1])) intact.good first log
        layout room (t.size + 1 - log.length) []
      have spent : log.length + (t.size + 1 - log.length) = t.size + 1 := by omega
      rw [spent, List.length_nil] at walked
      rw [walked, walk_end (by simp [setBytes, size])]
      simp
    · exact spares_behind (Nat.le_of_not_lt inside)

/-- The removal of the record leaves what a scan finds: its tom is not there, its flag is up
    already, or the one it writes is spared. A record without uuid has its header read first,
    and that must not fail. -/
def Clean (log : RecordLog) (r : Record) : Prop :=
  r.tomId = firstTom → (r.header.deleted = 0 → Spares log (r.offset + deletedOffset)) ∧
    (r.header.uuid = 0 → r.offset < (logBytes log).length →
      r.offset + headerSize ≤ (logBytes log).length)

theorem found_single {b : Storage} {t : Tom} (one : b.toms = [t]) :
    found b = (walkTom scanVisit (t.size + 1) t 0 []).2 := by
  unfold found Storage.scan
  rw [one]
  unfold walkToms
  cases walkTom scanVisit (t.size + 1) t 0 [] with
  | mk t' result =>
    cases result with
    | error e => rfl
    | ok acc => rfl

theorem recoverUuid_cases {t : Tom} (intact : Intact t (logBytes log)) (r : Record) :
    ((recoverUuid t r).1 = t ∧ (r.header.uuid = 0 → r.offset < (logBytes log).length →
        r.offset + headerSize ≤ (logBytes log).length)) ∨
      (recoverUuid t r).1 = { t with tomF := { t.tomF with good := false } } ∧ r.header.uuid = 0 ∧
        r.offset < (logBytes log).length ∧ (logBytes log).length < r.offset + headerSize := by
  have bytes := intact.content
  have size := intact.sized
  unfold recoverUuid
  by_cases nil : r.header.uuid = 0
  · rw [if_pos nil]
    by_cases inside : r.offset < t.size
    · by_cases whole : r.offset + headerSize ≤ t.tomF.bytes.length
      · refine .inl ⟨?_, fun _ _ => by rw [← bytes]; exact whole⟩
        simp [Tom.record, inside, FileStream.read, intact.good, whole]
      · refine .inr ⟨?_, nil, by omega, by rw [bytes] at whole; omega⟩
        simp [Tom.record, inside, FileStream.read, whole]
    · refine .inl ⟨?_, fun _ early => by omega⟩
      simp [Tom.record, inside]
  · rw [if_neg nil]
    exact .inl ⟨rfl, fun zero => absurd zero nil⟩

theorem tom_remove_failed {t : Tom} (failed : t.tomF.good = false) (r : Record) :
    (t.remove r none).1 = t := by
  unfold Tom.remove FileStream.write
  split
  · rfl
  · simp [failed]

theorem walk_failed {t : Tom} (failed : t.tomF.good = false) (some_ : 0 < t.size) :
    (walkTom scanVisit (t.size + 1) t 0 []).2 = .error .readHeaderFailed := by
  simp [walkTom, Tom.record, some_, FileStream.read, failed]

theorem remove_toms {b : Storage} {t : Tom} (one : b.toms = [t]) {r : Record} (tom : r.tomId = t.id)
    (same : (recoverUuid t r).1.id = t.id) :
    (b.remove r none).1.toms = [((recoverUuid t r).1.remove r none).1] := by
  have id : ((recoverUuid t r).1.remove r none).1.id = t.id := by
    rw [← same]
    unfold Tom.remove
    split
    · rfl
    · dsimp only
      split <;> rfl
  have there : b.tom r.tomId = some t := by
    simp [Storage.tom, one, tom]
  unfold Storage.remove
  rw [there]
  dsimp only
  split <;> simp [Storage.setTom, one, id]

theorem remove_current (b : Storage) (r : Record) :
    (b.remove r none).1.currentTomId = b.currentTomId := by
  unfold Storage.remove
  split
  · rfl
  · dsimp only
    split <;> rfl

theorem remove_failed {b : Storage} {t : Tom} (one : b.toms = [t]) (failed : t.tomF.good = false)
    (r : Record) : (b.remove r none).1.toms = [t] := by
  by_cases tom : r.tomId = t.id
  · have same : { t with tomF := { t.tomF with good := false } } = t := by
      obtain ⟨id, size, bytes, good⟩ := t
      simp only at failed
      rw [failed]
    have read : (t.record r.offset).1 = t := by
      unfold Tom.record FileStream.read
      simp only [failed, Bool.false_eq_true, false_and, if_false]
      split
      · exact same
      · rfl
    have kept : (recoverUuid t r).1 = t := by
      unfold recoverUuid
      split
      · split
        · rename_i t' _ here
          rw [← read, here]
        · rename_i t' _ here
          rw [← read, here]
      · rfl
    have toms := remove_toms one tom (by rw [kept])
    rw [kept, tom_remove_failed failed] at toms
    exact toms
  · have other : ¬ t.id = r.tomId := fun same => tom same.symm
    simp [Storage.remove, Storage.tom, one, other]

theorem removed_filed {b : Storage} {a c : RecordLog} {e : Entry UUID Payload}
    (filed : Filed b (a ++ e :: c)) {r : Record} (tom : r.tomId = firstTom)
    (place : r.offset = (logBytes a).length) (unmarked : r.header.deleted = 0) :
    Filed (b.remove r none).1 (a ++ { e with removed := true } :: c) := by
  obtain ⟨t, one, current, id, _, intact⟩ := tom_of_entry filed
  have kept : (recoverUuid t r).1 = t := by
    unfold recoverUuid
    split
    · rw [place, record_at_entry intact]
    · rfl
  obtain ⟨t', written, id', intact'⟩ := remove_entry intact place unmarked
  have toms := remove_toms one (tom.trans id.symm) (by rw [kept])
  rw [kept, written] at toms
  exact .inr ⟨t', toms, (remove_current b r).trans current, id'.trans id, by simpa using intact'⟩

theorem remove_same_iff {b : Storage} (filed : Filed b log) (r : Record) :
    found (b.remove r none).1 = found b ↔ Clean log r := by
  have before : found b = .ok (liveFrom firstTom 0 log) := by
    unfold found
    rw [scan_filed filed]
  by_cases tom : r.tomId = firstTom
  · rcases filed with ⟨empty, current, rfl⟩ | ⟨t, one, current, id, intact⟩
    · have nothing : (b.remove r none).1 = b := by
        simp [Storage.remove, Storage.tom, empty]
      rw [nothing]
      refine iff_of_true rfl fun _ => ⟨fun _ a e c split => ?_, fun _ inside => ?_⟩
      · cases a <;> cases split
      · cases inside
    · have bytes := intact.content
      have size := intact.sized
      rcases recoverUuid_cases intact r with ⟨kept, whole⟩ | ⟨broken, nil, inside, torn⟩
      · have toms := remove_toms one (tom.trans id.symm) (by rw [kept])
        rw [kept] at toms
        have clean : Clean log r ↔
            (r.header.deleted = 0 → Spares log (r.offset + deletedOffset)) :=
          ⟨fun clean => (clean tom).1, fun spares _ => ⟨spares, whole⟩⟩
        rw [clean, before]
        by_cases unmarked : r.header.deleted = 0
        · have written : (t.remove r none).1 =
              setBytes t (overwrite t.tomF.bytes (r.offset + deletedOffset) [1]) := by
            simp [Tom.remove, unmarked, FileStream.write, intact.good, setBytes]
          rw [written] at toms
          rw [found_single toms]
          have same := overwritten_same_iff intact id (r.offset + deletedOffset)
          exact same.trans ⟨fun spares _ => spares, fun spares => spares unmarked⟩
        · have unwritten : (t.remove r none).1 = t := by
            simp [Tom.remove, unmarked]
          rw [unwritten] at toms
          refine iff_of_true ?_ fun zero => absurd zero unmarked
          rw [← before, found_single toms, found_single one]
      · have toms := remove_toms one (tom.trans id.symm) (by rw [broken])
        rw [broken, tom_remove_failed rfl] at toms
        refine iff_of_false ?_ ?_
        · rw [before, found_single toms, walk_failed rfl (by rw [← size] at inside; dsimp only; omega)]
          intro same
          cases same
        · intro clean
          have whole := (clean tom).2 nil inside
          omega
  · have nothing : (b.remove r none).1 = b := by
      unfold Storage.remove
      rw [tom_elsewhere filed tom]
    rw [nothing]
    exact iff_of_true rfl fun here => absurd here tom

end Removal

end TinyMqStrayRemovals
