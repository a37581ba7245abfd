import TinyMq.Broker.Message

/-!
`BytesMessage::writeBytes` on the vector of a bytes message. A vector has a size, which
bounds the elements that may be accessed, and a capacity, which does not.
-/
namespace TinyMqBytesWrites
open ByteStrings TinyMqMessage

/-- `BytesVector`, a `std::vector<int8_t>`. -/
structure Vec where
  elements : Bytes
  capacity : Nat
  room : elements.length ≤ capacity

def Vec.size (v : Vec) : Nat := v.elements.length

/-- Why a call does not come back: an element at or behind the size is accessed, or a
    vector is asked for that is longer than `max_size()`. -/
inductive Stop where
  | outOfRange
  | length_error
  deriving DecidableEq

def max_size : Nat := 2 ^ 63 - 1

def Vec.zeros (n : Nat) : Except Stop Vec :=
  if max_size < n then .error .length_error
  else .ok ⟨List.replicate n 0, n, (List.length_replicate ..).le⟩

def Vec.reserve (v : Vec) (n : Nat) : Except Stop Vec :=
  if max_size < n then .error .length_error
  else .ok { v with capacity := max v.capacity n, room := v.room.trans (Nat.le_max_left ..) }

def Vec.put (v : Vec) (i : Nat) (b : UInt8) : Vec :=
  { v with elements := v.elements.set i b, room := (List.length_set ..).le.trans v.room }

@[simp] theorem Vec.put_elements (v : Vec) (i : Nat) (b : UInt8) :
    (v.put i b).elements = v.elements.set i b := rfl

@[simp] theorem Vec.put_size (v : Vec) (i : Nat) (b : UInt8) : (v.put i b).size = v.size := by
  simp [Vec.size]

def Vec.store (v : Vec) (i : Nat) (b : UInt8) : Except Stop Vec :=
  if i < v.size then .ok (v.put i b) else .error .outOfRange

def Vec.storeAll (v : Vec) (i : Nat) : Bytes → Except Stop Vec
  | [] => .ok v
  | b :: bytes =>
    match v.store i b with
    | .error e => .error e
    | .ok v => v.storeAll (i + 1) bytes

/-- `std::fill(vec.begin() + first, vec.end(), 0)`. A range that begins behind the end is none:
    what lies there is accessed. -/
def Vec.fill (v : Vec) (first : Nat) : Except Stop Vec :=
  if v.size < first then .error .outOfRange
  else v.storeAll first (List.replicate (v.size - first) 0)

/-- `BytesMessage::writeBytes`; the sum of two `size_t` may wrap round. -/
def writeBytes (data : Vec) (bytes : Bytes) (offset : Nat) : Except Stop Vec := do
  let dataSize := (offset + bytes.length) % 2 ^ 64
  let vec ← if data.elements = [] then Vec.zeros dataSize else pure data
  let vec ← if vec.size < dataSize then do (← vec.reserve dataSize).fill offset else pure vec
  vec.storeAll offset (bytes.take (dataSize - offset))

/-- The content after an overwrite that extends it where it has to, with zeros before the data. -/
structure Overwritten (content d : Bytes) (offset : Nat) (after : Bytes) : Prop where
  length : after.length = max content.length (offset + d.length)
  written : ∀ i < d.length, after[offset + i]? = d[i]?
  kept : ∀ i < content.length, i < offset ∨ offset + d.length ≤ i → after[i]? = content[i]?
  zero : ∀ i, content.length ≤ i → i < after.length → i < offset ∨ offset + d.length ≤ i →
    after[i]? = some 0

theorem storeAll_inside {v : Vec} {i : Nat} {bytes : Bytes} (inside : i + bytes.length ≤ v.size) :
    ∃ v', v.storeAll i bytes = .ok v' ∧
      v'.elements = v.elements.take i ++ bytes ++ v.elements.drop (i + bytes.length) := by
  induction bytes generalizing v i with
  | nil => exact ⟨v, rfl, by simp⟩
  | cons b bytes ih =>
    simp only [List.length_cons] at inside
    have here : i < v.size := by omega
    have stored : v.store i b = .ok (v.put i b) := if_pos here
    have room : i + 1 + bytes.length ≤ (v.put i b).size := by
      rw [Vec.put_size]
      omega
    obtain ⟨v', done, elements⟩ := ih room
    refine ⟨v', by rw [Vec.storeAll, stored]; exact done, ?_⟩
    have front : (v.elements.set i b).take (i + 1) = v.elements.take i ++ [b] := by
      have bounded : i < (v.elements.set i b).length := by
        rw [List.length_set]
        exact here
      rw [List.take_succ_eq_append_getElem bounded, List.take_set,
        List.set_eq_of_length_le (by simp)]
      simp
    have back : (v.elements.set i b).drop (i + 1 + bytes.length) =
        v.elements.drop (i + (b :: bytes).length) := by
      rw [List.drop_set, if_pos (by omega), List.length_cons, Nat.add_assoc, Nat.add_comm 1]
    rw [elements, Vec.put_elements, front, back]
    simp

theorem storeAll_outside {v : Vec} {i : Nat} {bytes : Bytes} (some_ : bytes ≠ [])
    (outside : v.size < i + bytes.length) : v.storeAll i bytes = .error .outOfRange := by
  induction bytes generalizing v i with
  | nil => exact absurd rfl some_
  | cons b bytes ih =>
    simp only [List.length_cons] at outside
    unfold Vec.storeAll Vec.store
    by_cases here : i < v.size
    · rw [if_pos here]
      dsimp only
      apply ih
      · rintro rfl
        simp only [List.length_nil] at outside
        omega
      · rw [Vec.put_size]
        omega
    · rw [if_neg here]

theorem reserve_elements (v : Vec) {n : Nat} (short : ¬ max_size < n) :
    ∃ grown, v.reserve n = .ok grown ∧ grown.elements = v.elements := by
  rw [Vec.reserve, if_neg short]
  exact ⟨_, rfl, rfl⟩

theorem fill_size {v : Vec} {first : Nat} (begun : first ≤ v.size) :
    ∃ filled, v.fill first = .ok filled ∧ filled.size = v.size := by
  have whole : v.elements.length = v.size := rfl
  have reaches : first + (List.replicate (v.size - first) (0 : UInt8)).length ≤ v.size := by
    rw [List.length_replicate]
    omega
  obtain ⟨filled, done, elements⟩ := storeAll_inside reaches
  refine ⟨filled, ?_, ?_⟩
  · rw [Vec.fill, if_neg (by omega), done]
  · rw [Vec.size, elements]
    simp only [List.length_append, List.length_take, List.length_replicate, List.length_drop]
    omega

theorem overwritten_extended (c d : Bytes) (offset : Nat) {base : Bytes}
    (extended : base = c ++ List.replicate (offset + d.length - c.length) 0) :
    Overwritten c d offset (base.take offset ++ d ++ base.drop (offset + d.length)) := by
  have size : base.length = max c.length (offset + d.length) := by
    rw [extended, List.length_append, List.length_replicate]
    omega
  have front : (base.take offset).length = offset := by
    rw [List.length_take]
    omega
  have apart : ∀ i, i < offset ∨ offset + d.length ≤ i →
      (base.take offset ++ d ++ base.drop (offset + d.length))[i]? = base[i]? := by
    intro i outside
    rcases outside with before | behind
    · rw [List.append_assoc, List.getElem?_append_left (by omega), List.getElem?_take_of_lt before]
    · rw [List.getElem?_append_right (by simp [front, behind]), List.getElem?_drop]
      congr 1
      simp only [List.length_append, front]
      omega
  refine
    { length := ?length
      written := ?written
      kept := ?kept
      zero := ?zero }
  case length =>
    simp only [List.length_append, List.length_drop, front, size]
    omega
  case written =>
    intro i inside
    rw [List.append_assoc, List.getElem?_append_right (by omega), front, Nat.add_sub_cancel_left,
      List.getElem?_append_left inside]
  case kept =>
    intro i inside outside
    rw [apart i outside, extended, List.getElem?_append_left inside]
  case zero =>
    intro i behind inside outside
    simp only [List.length_append, List.length_drop, front, size] at inside
    rw [apart i outside, extended, List.getElem?_append_right behind, List.getElem?_replicate,
      if_pos (by omega)]

/- Growing content that is not empty: `reserve` leaves the size alone, so the fill begins behind
   the end or the loop runs past it. -/
theorem growth_stops {data : Vec} {bytes : Bytes} {offset : Nat}
    (fits : offset + bytes.length < 2 ^ 64) (some_ : data.elements ≠ [])
    (grows : data.size < offset + bytes.length) :
    writeBytes data bytes offset =
      .error (if max_size < offset + bytes.length then .length_error else .outOfRange) := by
  have whole : bytes.take (offset + bytes.length - offset) = bytes := by
    rw [Nat.add_sub_cancel_left, List.take_length]
  unfold writeBytes
  rw [Nat.mod_eq_of_lt fits]
  dsimp only
  rw [whole]
  simp only [some_, if_false, pure_bind, grows, if_true]
  by_cases long : max_size < offset + bytes.length
  · rw [Vec.reserve, if_pos long, if_pos long]
    rfl
  · obtain ⟨grown, reserved, elements⟩ := reserve_elements data long
    have size : grown.size = data.size := by rw [Vec.size, elements, Vec.size]
    rw [reserved, if_neg long]
    change (grown.fill offset >>= fun vec => vec.storeAll offset bytes) = .error .outOfRange
    by_cases behind : data.size < offset
    · rw [Vec.fill, size, if_pos behind]
      rfl
    · obtain ⟨filled, done, same⟩ := @fill_size grown offset (by omega)
      rw [done]
      apply storeAll_outside
      · rintro rfl
        simp only [List.length_nil] at grows
        omega
      · rw [same, size]
        exact grows

theorem stores_overwrite {v : Vec} {c d : Bytes} {offset : Nat}
    (extended : v.elements = c ++ List.replicate (offset + d.length - c.length) 0) :
    ∃ v', v.storeAll offset d = .ok v' ∧ Overwritten c d offset v'.elements := by
  have room : offset + d.length ≤ v.size := by
    rw [Vec.size, extended, List.length_append, List.length_replicate]
    omega
  obtain ⟨v', done, elements⟩ := storeAll_inside room
  refine ⟨v', done, ?_⟩
  rw [elements]
  exact overwritten_extended c d offset extended

/-- A write into the content of a bytes message is an overwrite that extends it, and stays inside
    the vector, exactly when the content is empty or the data ends inside of it. -/
theorem writeBytes_overwrites_iff (data : Vec) (bytes : Bytes) (offset : Nat)
    (fits : offset + bytes.length < 2 ^ 64) :
    (∃ after, writeBytes data bytes offset = .ok after ∧
      Overwritten data.elements bytes offset after.elements) ↔
    data.elements = [] ∧ offset + bytes.length ≤ max_size ∨
      offset + bytes.length ≤ data.elements.length := by
  have whole : bytes.take (offset + bytes.length - offset) = bytes := by
    rw [Nat.add_sub_cancel_left, List.take_length]
  by_cases empty : data.elements = []
  · have written : writeBytes data bytes offset =
        (Vec.zeros (offset + bytes.length) >>= fun vec => vec.storeAll offset bytes) := by
      unfold writeBytes
      rw [Nat.mod_eq_of_lt fits]
      dsimp only
      rw [whole]
      simp only [empty, if_true]
      unfold Vec.zeros
      split
      · rfl
      · simp [Vec.size, bind, Except.bind, pure, Except.pure]
    rw [written, Vec.zeros]
    by_cases long : max_size < offset + bytes.length
    · rw [if_pos long]
      constructor
      · rintro ⟨after, done, _⟩
        cases done
      · rintro (⟨_, short⟩ | inside)
        · omega
        · rw [empty, List.length_nil] at inside
          omega
    · rw [if_neg long]
      refine iff_of_true ?_ (.inl ⟨empty, by omega⟩)
      apply stores_overwrite
      simp [empty]
  · by_cases grows : data.size < offset + bytes.length
    · rw [growth_stops fits empty grows]
      constructor
      · rintro ⟨after, done, _⟩
        cases done
      · rintro (⟨none_, _⟩ | inside)
        · exact absurd none_ empty
        · exact absurd inside (Nat.not_le_of_lt grows)
    · have inside : offset + bytes.length ≤ data.elements.length := Nat.not_lt.mp grows
      have written : writeBytes data bytes offset = data.storeAll offset bytes := by
        unfold writeBytes
        rw [Nat.mod_eq_of_lt fits]
        dsimp only
        rw [whole]
        simp only [empty, if_false, pure_bind, grows]
      rw [written]
      refine iff_of_true ?_ (.inr inside)
      apply stores_overwrite
      simp [Nat.sub_eq_zero_of_le inside]

theorem overwrites_inside : ∃ after,
    writeBytes ⟨[1, 2, 3], 3, by decide⟩ [8, 9] 1 = .ok after ∧
      Overwritten [1, 2, 3] [8, 9] 1 after.elements :=
  (writeBytes_overwrites_iff ⟨[1, 2, 3], 3, by decide⟩ [8, 9] 1 (by decide)).mpr
    (.inr (by decide))

theorem append_stops :
    writeBytes ⟨[1], 1, by decide⟩ [2] 1 = .error .outOfRange ∧
    ¬ ∃ after, writeBytes ⟨[1], 1, by decide⟩ [2] 1 = .ok after ∧
      Overwritten [1] [2] 1 after.elements := by
  have stops : writeBytes ⟨[1], 1, by decide⟩ [2] 1 = .error .outOfRange :=
    growth_stops (by decide) (by decide) (by decide)
  refine ⟨stops, ?_⟩
  rintro ⟨after, done, _⟩
  rw [stops] at done
  cases done

end TinyMqBytesWrites
