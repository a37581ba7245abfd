import TinyMq.Broker.CheckedDecoding
import TinyMq.Broker.DeadLetterCopies

/-!
What `fromBytes` delivers as the body when it is given a part of a record: the first bytes
of what `toBytes` wrote.
-/
namespace TinyMqTruncatedRecords
open ByteStrings DelimitedText AssocLists TinyMqMessage TinyMqWireFormat TinyMqWireRoundTrip
  TinyMqCodecLosses TinyMqDeadLetterCopies TinyMqCheckedDecoding

section Cuts
variable {json : Json} {m : Content} {bytes : Bytes} {k off : Nat}

theorem take_size (within : k ≤ bytes.length) : (bytes.take k).length = k := by
  rw [List.length_take]
  exact Nat.min_eq_left within

theorem slice_take {len : Nat} (inside : off + len ≤ k) :
    slice off len (bytes.take k) = slice off len bytes := by
  unfold slice
  rw [List.drop_take, List.take_take, Nat.min_eq_left (by omega)]

theorem readString_advances {s : Str} {off' : Nat} (read : readString bytes off = some (s, off')) :
    off + 4 ≤ off' := by
  have last := (readString_read read).1
  omega

theorem readString_take {s : Str} {off' : Nat} (read : readString bytes off = some (s, off'))
    (within : k ≤ bytes.length) :
    readString (bytes.take k) off = if off' ≤ k then some (s, off') else none := by
  obtain ⟨rfl, rfl, _⟩ := readString_read read
  unfold readString
  rw [take_size within]
  by_cases cut : k < off + 4
  · rw [if_pos cut, if_neg (by omega)]
  · rw [if_neg cut]
    dsimp only
    rw [slice_take (by omega)]
    by_cases inside : off + 4 + leNat (slice off 4 bytes) ≤ k
    · rw [if_neg (by omega), if_pos inside, slice_take inside]
    · rw [if_pos (by omega), if_neg inside]

/-- The four header strings are read one behind the other, from an offset up to another one. -/
def Strings (bytes : Bytes) (off last : Nat) : Prop :=
  ∃ a b c d off₁ off₂ off₃, readString bytes off = some (a, off₁) ∧
    readString bytes off₁ = some (b, off₂) ∧ readString bytes off₂ = some (c, off₃) ∧
    readString bytes off₃ = some (d, last)

theorem decodeStrings_take {last : Nat} (strings : Strings bytes off last)
    (short : bytes.length < 2 ^ 63) (within : k ≤ bytes.length) (begun : off ≤ k) :
    (last ≤ k ∧ ∃ headers, decodeStrings json m (bytes.take k) off =
      decodeProperties json (Content.setHeaders m headers) (bytes.take k) last) ∨
    k < last ∧ ∃ r, decodeStrings json m (bytes.take k) off = .ok ⟨r, none⟩ := by
  obtain ⟨a, b, c, d, off₁, off₂, off₃, first, second, third, fourth⟩ := strings
  have size := take_size within
  have far₂ := readString_advances second
  have far₃ := readString_advances third
  have far₄ := readString_advances fourth
  unfold decodeStrings
  rw [checkedReadString_inside (by omega) (by omega), ok_bind, readString_take first within]
  by_cases whole₁ : off₁ ≤ k
  · rw [if_pos whole₁]
    dsimp only
    rw [checkedReadString_inside (by omega) (by omega), ok_bind, readString_take second within]
    by_cases whole₂ : off₂ ≤ k
    · rw [if_pos whole₂]
      dsimp only
      rw [checkedReadString_inside (by omega) (by omega), ok_bind, readString_take third within]
      by_cases whole₃ : off₃ ≤ k
      · rw [if_pos whole₃]
        dsimp only
        rw [checkedReadString_inside (by omega) (by omega), ok_bind, readString_take fourth within]
        by_cases whole₄ : last ≤ k
        · rw [if_pos whole₄]
          exact .inl ⟨whole₄, _, rfl⟩
        · rw [if_neg whole₄]
          exact .inr ⟨by omega, _, rfl⟩
      · rw [if_neg whole₃]
        exact .inr ⟨by omega, _, rfl⟩
    · rw [if_neg whole₂]
      exact .inr ⟨by omega, _, rfl⟩
  · rw [if_neg whole₁]
    exact .inr ⟨by omega, _, rfl⟩

theorem decode_take {rest : Bytes} {last : Nat} (record : bytes = 2 :: rest)
    (strings : Strings bytes (kFixed + kHdrNums) last) (short : bytes.length < 2 ^ 63)
    (within : k ≤ bytes.length) :
    (last ≤ k ∧ ∃ r : Content, r.properties = m.properties ∧
      decode json m (bytes.take k) = decodeProperties json r (bytes.take k) last) ∨
    k < last ∧ ∃ r, decode json m (bytes.take k) = .ok ⟨r, none⟩ := by
  have size := take_size within
  have fixed : kFixed = 26 := rfl
  have numbers : kHdrNums = 33 := rfl
  have late : 59 ≤ last := by
    obtain ⟨a, b, c, d, off₁, off₂, off₃, first, second, third, fourth⟩ := strings
    have far₁ := readString_advances first
    have far₂ := readString_advances second
    have far₃ := readString_advances third
    have far₄ := readString_advances fourth
    omega
  unfold decode
  by_cases none_ : k = 0
  · rw [none_, List.take_zero, if_pos rfl]
    exact .inr ⟨by omega, m, rfl⟩
  have magic : byteAt (bytes.take k) 0 = .ok 2 := by
    rw [record, ← Nat.succ_pred_eq_of_ne_zero none_]
    rfl
  have filled : bytes.take k ≠ [] := by
    intro empty
    rw [empty] at size
    exact none_ size.symm
  rw [if_neg filled, magic, ok_bind, if_pos (Or.inr rfl), size]
  by_cases cut : k < kFixed
  · rw [if_pos cut]
    exact .inr ⟨by omega, m, rfl⟩
  rw [if_neg cut, copy_inside (by omega), copy_inside (by omega), byteAt_inside (by omega), ok_bind,
    ok_bind, ok_bind, if_pos rfl]
  unfold decodeHeaders
  rw [plus_small (by omega), size]
  by_cases cut' : k < kFixed + kHdrNums
  · rw [if_pos cut']
    exact .inr ⟨by omega, _, rfl⟩
  rw [if_neg cut', plus_small (by omega), plus_small (by omega), plus_small (by omega),
    plus_small (by omega), plus_small (by omega), copy_inside (by omega), copy_inside (by omega),
    copy_inside (by omega), copy_inside (by omega), copy_inside (by omega),
    byteAt_inside (by omega)]
  simp only [ok_bind]
  rcases decodeStrings_take strings short within (by omega) with ⟨whole, headers, same⟩ | ⟨part, r, same⟩
  · refine .inl ⟨whole, _, ?_, same⟩
    rfl
  · exact .inr ⟨part, r, same⟩

theorem decodeData_take (within : k ≤ bytes.length) :
    decodeData m (bytes.take k) off =
      .ok ⟨m, if off < k then some ((bytes.drop off).take (k - off)) else none⟩ := by
  have size := take_size within
  unfold decodeData
  rw [size]
  by_cases more : off < k
  · have rest := slice_rest (bytes.take k) off
    rw [size, List.drop_take] at rest
    rw [if_pos more, if_pos more, copy_inside (by omega), ok_bind, rest]
  · rw [if_neg more, if_neg more]

theorem decodeProperties_take {front text after : Bytes}
    (layout : bytes = front ++ (leBytes 4 text.length ++ (text ++ after)))
    (count : text.length < 2 ^ 32) (short : bytes.length < 2 ^ 63) (within : k ≤ bytes.length)
    (begun : front.length ≤ k) :
    decodeProperties json m (bytes.take k) front.length =
      if k ≤ front.length + 4 then .ok ⟨m, none⟩
      else if k < front.length + 4 + text.length then
        .ok ⟨m, some (text.take (k - (front.length + 4)))⟩
      else orThrow (readText json m.properties text) >>= fun ps =>
        .ok ⟨{ m with properties := ps }, if front.length + 4 + text.length < k then
          some (after.take (k - (front.length + 4 + text.length))) else none⟩ := by
  have size := take_size within
  have word : text.length < 256 ^ 4 := by omega
  unfold decodeProperties
  rw [plus_small (by omega), size]
  by_cases cut : k < front.length + 4
  · rw [if_pos cut, if_pos (by omega)]
  have field : slice front.length 4 (bytes.take k) = leBytes 4 text.length := by
    rw [slice_take (by omega)]
    exact slice_at layout rfl (leBytes_length ..)
  have behind : bytes.drop (front.length + 4) = text ++ after := by
    rw [layout, ← List.drop_drop, List.drop_left]
    exact List.drop_left' (leBytes_length ..)
  rw [if_neg cut, copy_inside (by omega), ok_bind, field, leNat_leBytes word]
  dsimp only
  rw [plus_small (by omega)]
  by_cases nothing : k ≤ front.length + 4
  · have here : ¬ (0 < text.length ∧ front.length + 4 + text.length ≤ k) := by omega
    rw [if_neg here, if_pos nothing, decodeData_take within, if_neg (by omega)]
  rw [if_neg nothing]
  by_cases part : k < front.length + 4 + text.length
  · have here : ¬ (0 < text.length ∧ front.length + 4 + text.length ≤ k) := by omega
    rw [if_neg here, if_pos part, decodeData_take within, if_pos (by omega), behind,
      List.take_append_of_le_length (by omega)]
  rw [if_neg part]
  have rest : bytes.drop (front.length + 4 + text.length) = after := by
    rw [← List.drop_drop, behind, List.drop_left]
  unfold readText
  by_cases empty : text = []
  · rw [if_pos empty, empty, List.length_nil, if_neg (by omega), decodeData_take within]
    rw [empty, List.length_nil] at rest
    simp only [Nat.add_zero] at rest ⊢
    rw [rest]
    rfl
  · have some_ : 0 < text.length := List.length_pos_iff.mpr empty
    have whole : slice (front.length + 4) text.length (bytes.take k) = text := by
      rw [slice_take (by omega), slice, behind, List.take_left]
    rw [if_pos ⟨some_, by omega⟩, if_neg empty, copy_inside (by omega), ok_bind, whole, ← orThrow_bind]
    simp only [bind_assoc, decodeData_take within, rest]

end Cuts

section Records
variable {json : Json} {c : Content} {k : Nat}

/-- The bytes in front of the length of the properties' text. -/
def frontPart (c : Content) : Bytes :=
  fixedPart c ++ numbersPart c.headers ++ writeString c.headers.messageId ++
    writeString c.headers.replyTo ++ writeString c.headers.correlationId ++ writeString c.headers.type

/-- Where the text of the properties begins. -/
def textStart (c : Content) : Nat := (frontPart c).length + 4

/-- Where it ends and the data begins. -/
def dataStart (json : Json) (c : Content) : Nat := textStart c + (cutText json c.properties).length

/-- What is left over of the room for header strings whose length four bytes cannot count. -/
def zeros (c : Content) : Bytes :=
  List.replicate ([c.headers.messageId, c.headers.replyTo, c.headers.correlationId,
    c.headers.type].map fun s => s.length - counted s).sum 0

theorem record_layout (json : Json) (c : Content) : toBytes json c =
    frontPart c ++ (leBytes 4 (cutText json c.properties).length ++
      (cutText json c.properties ++ (dataAsBytes json c.body ++ zeros c))) := by
  rw [toBytes_layout, cutText_length]
  simp only [variablePart, frontPart, zeros, cutText, List.map_cons, List.map_nil, List.flatten_cons,
    List.flatten_nil, List.append_assoc, List.append_nil]

theorem string_at (front rest : Bytes) (s : Str) :
    readString (front ++ (writeString s ++ rest)) front.length =
      some (s.take (counted s), (front ++ writeString s).length) := by
  have shift := readString_shift front (writeString s ++ rest) 0
  rw [Nat.add_zero, writeString_cut, readString_written (cut_short s), ← writeString_cut] at shift
  rw [shift, List.length_append]
  rfl

theorem strings_at (front rest : Bytes) (a b c d : Str) :
    Strings (front ++ (writeString a ++ (writeString b ++ (writeString c ++ (writeString d ++ rest)))))
      front.length
      (front ++ writeString a ++ writeString b ++ writeString c ++ writeString d).length := by
  have first := string_at front (writeString b ++ (writeString c ++ (writeString d ++ rest))) a
  have second := string_at (front ++ writeString a) (writeString c ++ (writeString d ++ rest)) b
  have third := string_at (front ++ writeString a ++ writeString b) (writeString d ++ rest) c
  have fourth := string_at (front ++ writeString a ++ writeString b ++ writeString c) rest d
  simp only [List.append_assoc] at first second third fourth ⊢
  exact ⟨_, _, _, _, _, _, _, first, second, third, fourth⟩

theorem record_strings (json : Json) (c : Content) :
    Strings (toBytes json c) (kFixed + kHdrNums) (frontPart c).length := by
  have begin_ : (fixedPart c ++ numbersPart c.headers).length = kFixed + kHdrNums := by
    rw [List.length_append, fixedPart_length, numbersPart_length]
  have strings := strings_at (fixedPart c ++ numbersPart c.headers)
    (leBytes 4 (cutText json c.properties).length ++
      (cutText json c.properties ++ (dataAsBytes json c.body ++ zeros c)))
    c.headers.messageId c.headers.replyTo c.headers.correlationId c.headers.type
  rw [begin_] at strings
  rw [record_layout]
  simpa only [frontPart, List.append_assoc] using strings

/-- From a part of a record, no body or a part of the message's own body, with its properties. -/
def Sound (json : Json) (c : Content) (k : Nat) : Prop :=
  ∀ r data, decode json { body := c.body.shell } ((toBytes json c).take k) = .ok ⟨r, some data⟩ →
    data <+: dataAsBytes json c.body ∧ ∀ name, get r.properties name = get c.properties name

def TextThrows (json : Json) (ps : Properties) : Prop :=
  cutText json ps ≠ [] ∧ (2 ^ 32 ≤ (json.stringify (toJSON ps)).length ∨ ∃ p ∈ ps, NullScalar p.2)

def TextKept (json : Json) (ps : Properties) : Prop :=
  ps = [] ∨ (json.stringify (toJSON ps)).length < 2 ^ 32 ∧ Stored ps

theorem text_throws_iff (converts : Converts json) {ps : Properties}
    (names : (ps.map Prod.fst).Nodup) (returns : Returns json (toJSON ps))
    (cuts : CutsThrow json (toJSON ps)) :
    readText json [] (cutText json ps) = none ↔ TextThrows json ps := by
  unfold TextThrows
  by_cases empty : ps = []
  · have text : cutText json ps = [] := by simp [cutText, propsText, empty]
    rw [text]
    exact iff_of_false (by simp [readText]) (fun throws => throws.1 rfl)
  · have size := @cutText_length json ps
    rw [propsText, if_neg empty] at size
    have some_ : cutText json ps ≠ [] ↔ (json.stringify (toJSON ps)).length % 2 ^ 32 ≠ 0 := by
      rw [← size, Ne, Ne, List.length_eq_zero_iff]
    rw [readText_cut empty returns cuts, some_]
    by_cases none_ : (json.stringify (toJSON ps)).length % 2 ^ 32 = 0
    · rw [if_pos none_]
      exact iff_of_false (by simp) (fun throws => throws.1 none_)
    · rw [if_neg none_, and_iff_right none_]
      by_cases fits : (json.stringify (toJSON ps)).length < 2 ^ 32
      · rw [if_pos fits, toJSON_throws converts names]
        exact (or_iff_right (Nat.not_le_of_lt fits)).symm
      · rw [if_neg fits]
        exact iff_of_true rfl (Or.inl (Nat.le_of_not_lt fits))

theorem text_kept_iff (converts : Converts json) {ps : Properties}
    (names : (ps.map Prod.fst).Nodup) (returns : Returns json (toJSON ps))
    (cuts : CutsThrow json (toJSON ps)) :
    (∃ ps', readText json [] (cutText json ps) = some ps' ∧ ∀ name, get ps' name = get ps name) ↔
      TextKept json ps := by
  unfold TextKept
  by_cases empty : ps = []
  · have text : cutText json ps = [] := by simp [cutText, propsText, empty]
    rw [text, empty]
    exact iff_of_true ⟨[], rfl, fun _ => rfl⟩ (Or.inl rfl)
  · rw [readText_empty converts empty names returns cuts, or_iff_right empty]

theorem decode_record (short : (toBytes json c).length < 2 ^ 63)
    (within : k ≤ (toBytes json c).length) :
    (k ≤ textStart c ∧ ∃ r, decode json { body := c.body.shell } ((toBytes json c).take k) =
      .ok ⟨r, none⟩) ∨
    textStart c < k ∧ ∃ r : Content, r.properties = [] ∧
      decode json { body := c.body.shell } ((toBytes json c).take k) =
        if k < dataStart json c then
          .ok ⟨r, some ((cutText json c.properties).take (k - textStart c))⟩
        else orThrow (readText json [] (cutText json c.properties)) >>= fun ps =>
          .ok ⟨{ r with properties := ps }, if dataStart json c < k then
            some ((dataAsBytes json c.body ++ zeros c).take (k - dataStart json c)) else none⟩ := by
  have record : ∃ rest, toBytes json c = 2 :: rest := ⟨_, rfl⟩
  obtain ⟨rest, record⟩ := record
  have count : (cutText json c.properties).length < 2 ^ 32 := by
    rw [cutText_length]
    exact Nat.mod_lt _ (by decide)
  have text : (frontPart c).length + 4 = textStart c := rfl
  have data : textStart c + (cutText json c.properties).length = dataStart json c := rfl
  rcases @decode_take json { body := c.body.shell } _ k _ _ record (record_strings json c) short within
    with ⟨begun, r, properties, same⟩ | ⟨early, r, same⟩
  · rw [decodeProperties_take (record_layout json c) count short within begun, properties, text,
      data] at same
    by_cases nothing : k ≤ textStart c
    · rw [if_pos nothing] at same
      exact .inl ⟨nothing, r, same⟩
    · rw [if_neg nothing] at same
      exact .inr ⟨by omega, r, properties, same⟩
  · exact .inl ⟨by omega, r, same⟩

theorem take_prefix_iff {data left : Bytes} {n : Nat} (within : n ≤ (data ++ left).length) :
    (data ++ left).take n <+: data ↔ n ≤ data.length := by
  constructor
  · intro part
    have size := part.length_le
    rwa [List.length_take, Nat.min_eq_left within] at size
  · intro inside
    rw [List.take_append_of_le_length inside]
    exact List.take_prefix n data

theorem sound_error {stop : Stop}
    (same : decode json { body := c.body.shell } ((toBytes json c).take k) = .error stop) :
    Sound json c k := by
  intro r data decoded
  rw [same] at decoded
  cases decoded

theorem sound_none {r : Content}
    (same : decode json { body := c.body.shell } ((toBytes json c).take k) = .ok ⟨r, none⟩) :
    Sound json c k := by
  intro r' data decoded
  rw [same] at decoded
  cases decoded

theorem sound_data {r : Content} {data : Bytes}
    (same : decode json { body := c.body.shell } ((toBytes json c).take k) = .ok ⟨r, some data⟩) :
    Sound json c k ↔
      data <+: dataAsBytes json c.body ∧ ∀ name, get r.properties name = get c.properties name := by
  constructor
  · intro sound
    exact sound r data same
  · intro right r' data' decoded
    rw [same] at decoded
    cases decoded
    exact right

theorem text_cut_unsound {r : Content} {data : Bytes} (none_ : r.properties = [])
    (some_ : textStart c < dataStart json c)
    (same : decode json { body := c.body.shell } ((toBytes json c).take k) = .ok ⟨r, some data⟩) :
    ¬ Sound json c k := by
  intro sound
  have lost := (sound r data same).2
  have text : dataStart json c = textStart c + (cutText json c.properties).length := rfl
  have filled : c.properties ≠ [] := by
    intro empty
    have nothing : cutText json c.properties = [] := by simp [cutText, propsText, empty]
    rw [nothing, List.length_nil] at text
    omega
  obtain ⟨p, rest, first⟩ := List.exists_cons_of_ne_nil filled
  have gone := lost p.1
  rw [none_, first, get_nil, get_cons, if_pos rfl] at gone
  cases gone

theorem read_kept_iff (converts : Converts json) {ps ps' : Properties}
    (names : (ps.map Prod.fst).Nodup) (returns : Returns json (toJSON ps))
    (cuts : CutsThrow json (toJSON ps)) (read : readText json [] (cutText json ps) = some ps') :
    (∀ name, get ps' name = get ps name) ↔ TextKept json ps := by
  rw [← text_kept_iff converts names returns cuts, read]
  constructor
  · intro all
    exact ⟨ps', rfl, all⟩
  · rintro ⟨_, found, all⟩
    cases found
    exact all

/-- A truncated record yields no wrong body exactly where it is cut at or before the beginning of
    the text of the properties, or at or behind its end: there if nothing is behind it, or if
    the text throws, or if it gives the properties back and the record is cut in the data. -/
theorem truncated_sound_iff (converts : Converts json) (names : (c.properties.map Prod.fst).Nodup)
    (returns : Returns json (toJSON c.properties)) (cuts : CutsThrow json (toJSON c.properties))
    (short : (toBytes json c).length < 2 ^ 63) (cut : k < (toBytes json c).length) :
    Sound json c k ↔ k ≤ textStart c ∨ dataStart json c ≤ k ∧
      (k = dataStart json c ∨ TextThrows json c.properties ∨
        TextKept json c.properties ∧ k ≤ dataStart json c + (dataAsBytes json c.body).length) := by
  have size : (toBytes json c).length = dataStart json c + (dataAsBytes json c.body ++ zeros c).length := by
    rw [record_layout, dataStart, textStart]
    simp only [List.length_append, leBytes_length]
    omega
  rcases decode_record short (Nat.le_of_lt cut) with ⟨early, r, same⟩ | ⟨late, r, none_, same⟩
  · exact iff_of_true (sound_none same) (.inl early)
  by_cases part : k < dataStart json c
  · rw [if_pos part] at same
    exact iff_of_false (text_cut_unsound none_ (by omega) same) (by omega)
  rw [if_neg part] at same
  have throws := text_throws_iff converts names returns cuts
  cases read : readText json [] (cutText json c.properties) with
  | none =>
    rw [read] at same
    exact iff_of_true (sound_error same) (.inr ⟨by omega, .inr (.inl (throws.mp read))⟩)
  | some ps =>
    have reads : ¬ TextThrows json c.properties := by
      rw [← throws, read]
      exact Option.some_ne_none ps
    have back := read_kept_iff converts names returns cuts read
    rw [read] at same
    by_cases ended : dataStart json c < k
    · rw [if_pos ended] at same
      rw [sound_data same, take_prefix_iff (by omega)]
      constructor
      · rintro ⟨within, all⟩
        exact .inr ⟨by omega, .inr (.inr ⟨back.mp all, by omega⟩)⟩
      · rintro (early | ⟨_, at_ | thrown | ⟨all, within⟩⟩)
        · omega
        · omega
        · exact absurd thrown reads
        · exact ⟨by omega, back.mpr all⟩
    · rw [if_neg ended] at same
      exact iff_of_true (sound_none same) (.inr ⟨by omega, .inl (by omega)⟩)

theorem letter_cuts : CutsThrow letterJson (toJSON letter.properties) := by
  intro n _ fewer
  have differ : letterText.take n ≠ letterText := by
    intro same
    have size := congrArg List.length same
    rw [List.length_take] at size
    have whole : n < letterText.length := fewer
    omega
  exact if_neg differ

theorem letter_cut_sound : Sound letterJson letter 117 := by
  have kept : TextKept letterJson letter.properties := by
    refine .inr ⟨by decide, ?_⟩
    intro p member
    rw [List.mem_singleton.mp member]
    exact ⟨_, by simp, rfl⟩
  exact (truncated_sound_iff (fun v => if_pos rfl) (by decide) ⟨by simp [letterJson], by decide⟩
    letter_cuts (by decide +kernel) (by decide +kernel)).mpr
      (.inr ⟨by decide, .inr (.inr ⟨kept, by decide⟩)⟩)

/-- Cut in the text of its properties: what there is of the text is the body then. -/
theorem letter_text_delivered : (∃ r,
    decode letterJson { body := letter.body.shell } ((toBytes letterJson letter).take 90) =
      .ok ⟨r, some (letterText.take 9)⟩) ∧ ¬ Sound letterJson letter 90 := by
  have start : textStart letter = 81 := by decide
  have ends : dataStart letterJson letter = 116 := by decide
  have text : cutText letterJson letter.properties = letterText := by decide
  rcases @decode_record letterJson letter 90 (by decide +kernel) (by decide +kernel) with
    ⟨early, _⟩ | ⟨_, r, none_, same⟩
  · omega
  rw [if_pos (by omega), start, text] at same
  refine ⟨⟨r, same⟩, ?_⟩
  intro sound
  have gone := (sound r _ same).2 (str ['n'])
  rw [none_] at gone
  cases gone

end Records
end TinyMqTruncatedRecords
