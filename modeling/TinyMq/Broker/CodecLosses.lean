import TinyMq.Broker.StoredOffsets
import TinyMq.Broker.StreamCursor

/-!
What the JSON documents lose. A null of a scalar type is written and then thrown at, and a
null or an empty byte array is written and then passed over; everything else comes back.
-/
namespace TinyMqCodecLosses
open ByteStrings AssocLists TinyMqMessage TinyMqWireFormat TinyMqWireRoundTrip TinyMqStoredOffsets
open TinyMqStreamCursor

section Entries
variable {json : Json}

/-- A null of a scalar type: its entry in a document is thrown at. -/
def NullScalar (p : Property) : Prop := ∃ type, type ≠ .BYTE_ARRAY_TYPE ∧ p = .null type

/-- What comes back of an entry that is not thrown at. -/
def survivor : Property → Option Value
  | .value (.bytes []) => none
  | .value v => some v
  | .null _ => none

theorem survivor_value {v : Value} (filled : v ≠ .bytes []) : survivor (.value v) = some v := by
  unfold survivor
  split
  · rename_i empty
    cases empty
    exact absurd rfl filled
  · rename_i same
    cases same
    rfl
  · rename_i null
    cases null

theorem survivor_eq_some {p : Property} {v : Value} (kept : survivor p = some v) :
    p = .value v ∧ v ≠ .bytes [] := by
  unfold survivor at kept
  split at kept
  · cases kept
  · rename_i filled
    cases kept
    exact ⟨rfl, fun empty => filled (by rw [empty])⟩
  · cases kept

theorem readEntry_value (converts : Converts json) (v : Value) :
    ∃ o, entryToJSON (.value v) = .object o ∧ json.readEntry o = some (survivor (.value v)) := by
  by_cases empty : v = .bytes []
  · subst empty
    refine ⟨_, rfl, ?_⟩
    unfold Json.readEntry
    rw [getString_type converts]
    simp [getValueType, getArray, get_value, valueToJSON, survivor]
  · obtain ⟨o, document, read⟩ := readEntry_written converts empty
    exact ⟨o, document, by rw [read, survivor_value empty]⟩

theorem readEntry_null (converts : Converts json) (type : ValueType) :
    ∃ o, entryToJSON (.null type) = .object o ∧
      json.readEntry o = if type = .BYTE_ARRAY_TYPE then some none else none := by
  refine ⟨_, rfl, ?_⟩
  unfold Json.readEntry
  rw [getString_type converts]
  cases type <;> simp [typeFromString_name, getArray, Json.getValue, get_value]

theorem readEntry_entry (converts : Converts json) (p : Property) :
    ∃ o, entryToJSON p = .object o ∧ (NullScalar p ∧ json.readEntry o = none ∨
      ¬ NullScalar p ∧ json.readEntry o = some (survivor p)) := by
  cases p with
  | value v =>
    obtain ⟨o, document, read⟩ := readEntry_value converts v
    refine ⟨o, document, Or.inr ⟨?_, read⟩⟩
    rintro ⟨type, -, same⟩
    cases same
  | null type =>
    obtain ⟨o, document, read⟩ := readEntry_null converts type
    refine ⟨o, document, ?_⟩
    by_cases array : type = .BYTE_ARRAY_TYPE
    · rw [if_pos array] at read
      refine Or.inr ⟨?_, read⟩
      rintro ⟨other, scalar, same⟩
      cases same
      exact scalar array
    · rw [if_neg array] at read
      exact Or.inl ⟨⟨type, array, rfl⟩, read⟩

end Entries

section Maps
variable {json : Json}

theorem fromJSON_throws (converts : Converts json) {fields : Object}
    (written : ∀ f ∈ fields, ∃ p, f.2 = entryToJSON p) (ps : Properties) :
    fromJSON json ps fields = none ↔ ∃ f ∈ fields, ∃ p, f.2 = entryToJSON p ∧ NullScalar p := by
  induction fields generalizing ps with
  | nil => simp [fromJSON]
  | cons f fields ih =>
    obtain ⟨name, var⟩ := f
    obtain ⟨p, same⟩ := written (name, var) (by simp)
    obtain ⟨o, document, read⟩ := readEntry_entry converts p
    have rest := fun ps => ih (fun g member => written g (List.mem_cons_of_mem _ member)) ps
    have here : (∃ q, var = entryToJSON q ∧ NullScalar q) ↔ NullScalar p := by
      dsimp only at same
      constructor
      · rintro ⟨q, equal, null⟩
        rwa [entryToJSON_injective (same.symm.trans equal)]
      · exact fun null => ⟨p, same, null⟩
    simp only [List.mem_cons, exists_eq_or_imp, here]
    dsimp only at same
    rw [same, document]
    rcases read with ⟨null, read⟩ | ⟨solid, read⟩
    · simp [fromJSON, read, null]
    · cases kept : survivor p with
      | none => simp only [fromJSON, read, kept, rest ps, solid, false_or]
      | some v => simp only [fromJSON, read, kept, rest (setProperty ps name (.value v)), solid,
          false_or]

theorem fromJSON_get (converts : Converts json) {fields : Object}
    (written : ∀ f ∈ fields, ∃ p, f.2 = entryToJSON p) {ps ps' : Properties}
    (read : fromJSON json ps fields = some ps') {name : Str} {p : Property}
    (agree : ∀ f ∈ fields, f.1 = name → f.2 = entryToJSON p) :
    get ps' name =
      (get ps name).or (if name ∈ fields.map Prod.fst then (survivor p).map .value else none) := by
  induction fields generalizing ps with
  | nil =>
    cases read
    simp
  | cons f fields ih =>
    obtain ⟨other, var⟩ := f
    obtain ⟨q, same⟩ := written (other, var) (by simp)
    obtain ⟨o, document, entry⟩ := readEntry_entry converts q
    have rest := @ih fun g member => written g (List.mem_cons_of_mem _ member)
    have agree' : ∀ f ∈ fields, f.1 = name → f.2 = entryToJSON p := fun g member =>
      agree g (List.mem_cons_of_mem _ member)
    dsimp only at same
    rw [same, document] at read
    rcases entry with ⟨-, entry⟩ | ⟨-, entry⟩
    · simp [fromJSON, entry] at read
    · have here : other = name → q = p := fun at_ =>
        entryToJSON_injective (same.symm.trans (agree (other, var) (by simp) at_))
      have names (differ : ¬ other = name) :
          name ∈ ((other, var) :: fields).map Prod.fst ↔ name ∈ fields.map Prod.fst := by
        rw [List.map_cons, List.mem_cons]
        exact or_iff_right (Ne.symm differ)
      cases kept : survivor q with
      | none =>
        simp only [fromJSON, entry, kept] at read
        rw [rest read agree']
        by_cases at_ : other = name
        · rw [here at_] at kept
          simp [kept]
        · rw [if_congr (names at_) rfl rfl]
      | some v =>
        simp only [fromJSON, entry, kept] at read
        rw [rest read agree', get_setProperty]
        by_cases at_ : other = name
        · rw [here at_] at kept
          cases get ps name <;> simp [at_, kept]
        · rw [if_congr (names at_) rfl rfl]
          cases get ps name <;> simp [at_]

theorem toJSON_written {ps : Properties} : ∀ f ∈ toJSON ps, ∃ p, f.2 = entryToJSON p := by
  intro f member
  obtain ⟨p, -, rfl⟩ := mem_toJSON member
  exact ⟨p.2, rfl⟩

theorem get_of_mem {ps : Properties} (distinct : (ps.map Prod.fst).Nodup) {p : Str × Property}
    (member : p ∈ ps) : get ps p.1 = some p.2 := by
  induction ps with
  | nil => cases member
  | cons q ps ih =>
    rw [List.map_cons, List.nodup_cons] at distinct
    rw [get_cons]
    rcases List.mem_cons.mp member with rfl | later
    · exact if_pos rfl
    · have differ : q.1 ≠ p.1 := fun same => distinct.1 (same ▸ List.mem_map_of_mem later)
      rw [if_neg differ]
      exact ih distinct.2 later

theorem toJSON_throws (converts : Converts json) {qs : Properties}
    (distinct : (qs.map Prod.fst).Nodup) (ps : Properties) :
    fromJSON json ps (toJSON qs) = none ↔ ∃ q ∈ qs, NullScalar q.2 := by
  rw [fromJSON_throws converts toJSON_written]
  constructor
  · rintro ⟨f, member, p, same, null⟩
    obtain ⟨q, inside, rfl⟩ := mem_toJSON member
    exact ⟨q, inside, (entryToJSON_injective same).symm ▸ null⟩
  · rintro ⟨q, inside, null⟩
    have there : get (toJSON qs) q.1 = some (entryToJSON q.2) := by
      rw [get_toJSON distinct, get_of_mem distinct inside]
      rfl
    exact ⟨_, get_mem there, q.2, rfl, null⟩

theorem toJSON_get (converts : Converts json) {qs : Properties}
    (distinct : (qs.map Prod.fst).Nodup) {ps ps' : Properties}
    (read : fromJSON json ps (toJSON qs) = some ps') (name : Str) :
    get ps' name = (get ps name).or (((get qs name).bind survivor).map .value) := by
  have entry : ∀ p, get qs name = some p → ∀ f ∈ toJSON qs, f.1 = name → f.2 = entryToJSON p := by
    intro p found f member at_
    obtain ⟨q, inside, rfl⟩ := mem_toJSON member
    have known := get_of_mem distinct inside
    rw [show q.1 = name from at_, found, Option.some.injEq] at known
    rw [known]
  cases found : get qs name with
  | some p =>
    have there : get (toJSON qs) name = some (entryToJSON p) := by
      rw [get_toJSON distinct, found]
      rfl
    rw [fromJSON_get converts toJSON_written read (entry p found),
      if_pos (List.mem_map_of_mem (get_mem there))]
    rfl
  | none =>
    have absent : ∀ f ∈ toJSON qs, f.1 ≠ name := by
      intro f member at_
      obtain ⟨q, inside, rfl⟩ := mem_toJSON member
      have known := get_of_mem distinct inside
      rw [show q.1 = name from at_, found] at known
      cases known
    have none_ : name ∉ (toJSON qs).map Prod.fst := by
      intro member
      obtain ⟨f, inside, at_⟩ := List.mem_map.mp member
      exact absent f inside at_
    rw [@fromJSON_get _ converts _ toJSON_written _ _ read name (.null .BYTE_TYPE)
      fun f member at_ => absurd at_ (absent f member), if_neg none_]
    rfl

theorem stored_iff {ps : Properties} (distinct : (ps.map Prod.fst).Nodup) :
    Stored ps ↔ (¬ ∃ p ∈ ps, NullScalar p.2) ∧
      ∀ name, ((get ps name).bind survivor).map .value = get ps name := by
  constructor
  · intro stored
    constructor
    · rintro ⟨p, member, type, -, null⟩
      obtain ⟨v, -, same⟩ := stored p member
      rw [null] at same
      cases same
    · intro name
      cases found : get ps name with
      | none => rfl
      | some p =>
        obtain ⟨v, filled, same⟩ := stored _ (get_mem found)
        dsimp only at same
        rw [same, Option.bind_some, survivor_value filled]
        rfl
  · rintro ⟨-, all⟩ p member
    have known := all p.1
    rw [get_of_mem distinct member, Option.bind_some] at known
    obtain ⟨v, kept, same⟩ := Option.map_eq_some_iff.mp known
    exact ⟨v, (survivor_eq_some kept).2, same.symm⟩

theorem fromJSON_exact (converts : Converts json) {ps : Properties}
    (distinct : (ps.map Prod.fst).Nodup) :
    (∃ ps', fromJSON json [] (toJSON ps) = some ps' ∧ ∀ name, get ps' name = get ps name) ↔
      Stored ps := by
  rw [stored_iff distinct]
  constructor
  · rintro ⟨ps', read, all⟩
    constructor
    · intro null
      rw [(toJSON_throws converts distinct []).mpr null] at read
      cases read
    · intro name
      have known := toJSON_get converts distinct read name
      rw [all, get_nil, Option.none_or] at known
      exact known.symm
  · rintro ⟨solid, all⟩
    cases read : fromJSON json [] (toJSON ps) with
    | none => exact absurd ((toJSON_throws converts distinct []).mp read) solid
    | some ps' =>
      refine ⟨ps', rfl, fun name => ?_⟩
      rw [toJSON_get converts distinct read, get_nil, Option.none_or, all]

theorem fromJSON_itself (converts : Converts json) {ps : Properties}
    (distinct : (ps.map Prod.fst).Nodup) :
    (∃ ps', fromJSON json ps (toJSON ps) = some ps' ∧ ∀ name, get ps' name = get ps name) ↔
      ¬ ∃ p ∈ ps, NullScalar p.2 := by
  constructor
  · rintro ⟨ps', read, -⟩ null
    rw [(toJSON_throws converts distinct ps).mpr null] at read
    cases read
  · intro solid
    cases read : fromJSON json ps (toJSON ps) with
    | none => exact absurd ((toJSON_throws converts distinct ps).mp read) solid
    | some ps' =>
      refine ⟨ps', rfl, fun name => ?_⟩
      rw [toJSON_get converts distinct read]
      cases found : get ps name with
      | none => rfl
      | some p => rfl

end Maps

section Streams
variable {json : Json}

theorem streamFromJSON_filter (converts : Converts json) (values : List Value) :
    streamFromJSON json [] (streamToJSON values) = some (values.filter (· ≠ .bytes [])) := by
  have loop : ∀ (items front : List Value),
      readStream json front (items.map fun v => entryToJSON (.value v)) =
        some (front ++ items.filter (· ≠ .bytes [])) := by
    intro items
    induction items with
    | nil => exact fun front => by simp [readStream]
    | cons v items ih =>
      intro front
      obtain ⟨o, document, read⟩ := readEntry_value converts v
      rw [List.map_cons, document]
      by_cases empty : v = .bytes []
      · subst empty
        simp only [readStream, read, survivor]
        rw [ih front]
        simp
      · rw [survivor_value empty] at read
        simp only [readStream, read]
        rw [ih (front ++ [v])]
        simp [empty]
  have whole := loop values []
  simpa [streamFromJSON, streamToJSON, getArray, get_cons] using whole

theorem stream_decoded (converts : Converts json) {values : List Value}
    (returns : Returns json (streamToJSON values)) (old : List Value) :
    setDataFromBytes json (.stream old) (dataAsBytes json (.stream values)) =
      some (.stream (values.filter (· ≠ .bytes []))) := by
  by_cases none_ : values = []
  · simp [none_, dataAsBytes, setDataFromBytes]
  · have read := streamFromJSON_filter converts values
    simp only [dataAsBytes, if_neg none_, setDataFromBytes, if_neg returns.2, Json.parseObject,
      returns.1, Option.bind_some, read, Option.map_some]

theorem filter_iff (values : List Value) :
    values.filter (· ≠ .bytes []) = values ↔ .bytes [] ∉ values := by
  rw [List.filter_eq_self]
  constructor
  · intro all member
    simpa using all _ member
  · intro absent v member
    have differ : v ≠ .bytes [] := fun same => absent (same ▸ member)
    simpa using differ

/-- A stream comes back from its bytes, and is read value for value after a reset, exactly when
    it has no empty array: those are dropped, and every later read is moved up. -/
theorem stream_codec (converts : Converts json) (values : List Value)
    (returns : Returns json (streamToJSON values)) {ops : List Op} {w : World}
    (ran : run json ops {} = some w) {id : Nat} {s : PropertiesStream}
    (alive : w.streams id = some s) :
    ∃ w' s', run json [.setDataFromBytes id (dataAsBytes json (.stream values)), .reset id] w =
        some w' ∧ w'.streams id = some s' ∧
      setDataFromBytes json (.stream s.values) (dataAsBytes json (.stream values)) =
        some (.stream s'.values) ∧
      Reads w' id s'.values ∧
      (s'.values = values ↔ .bytes [] ∉ values) ∧
      ((∀ k : Nat, s'.values[k]? = values[k]?) ↔ .bytes [] ∉ values) := by
  let bytes := dataAsBytes json (.stream values)
  have ran' : run json (ops ++ [.setDataFromBytes id bytes, .reset id]) {} =
      run json [.setDataFromBytes id bytes, .reset id] w := by
    simp only [run, List.foldlM_append]
    rw [show ops.foldlM (step json) {} = some w from ran]
    rfl
  have decoded := stream_decoded converts returns s.values
  have values_ := values_of_setData decoded
  let filled : PropertiesStream :=
    { PropertiesStream.clear id with nodes := allocate w.address (Json.values json bytes) }
  let w₁ : World :=
    { w.set id filled with address := w.address + (Json.values json bytes).length }
  have first : step json w (.setDataFromBytes id bytes) = some w₁ := by
    simp only [step, alive, Option.map_some]
    rfl
  let s' : PropertiesStream := { filled with offset := filled.begin id }
  have second : step json w₁ (.reset id) = some (w₁.set id s') := by
    simp only [step, show w₁.streams id = some filled from if_pos rfl, Option.map_some]
    rfl
  have both : run json [.setDataFromBytes id bytes, .reset id] w = some (w₁.set id s') := by
    simp only [run, List.foldlM_cons, first, second, Option.bind_eq_bind, Option.bind_some,
      List.foldlM_nil]
    rfl
  have held : s'.values = values.filter (· ≠ .bytes []) := by
    rw [← values_]
    exact allocate_values _ _
  have sound := run_consistent consistent_start (ran'.trans both) id s' (set_same w₁ id s')
  have all : s'.remaining = s'.values := reset_remaining rfl
  refine ⟨_, s', both, set_same w₁ id s', ?_, ?_, ?_, ?_⟩
  · rw [held]
    exact decoded
  · rw [reads_own sound (set_same w₁ id s') rfl]
    exact all.symm
  · rw [held]
    exact filter_iff values
  · rw [held, ← filter_iff values]
    exact List.ext_getElem?_iff.symm

def tune : List Value := [.byte 7, .bytes []]

/-- `{"stream":[{"type":"BYTE","value":7},{"type":"BYTE_ARRAY","value":[  ]}]}` -/
def tuneText : Bytes :=
  str ['{','"','s','t','r','e','a','m','"',':','[','{','"','t','y','p','e','"',':','"','B','Y',
    'T','E','"',',','"','v','a','l','u','e','"',':','7','}',',','{','"','t','y','p','e','"',':',
    '"','B','Y','T','E','_','A','R','R','A','Y','"',',','"','v','a','l','u','e','"',':','[',' ',
    ' ',']','}',']','}']

def tuneJson : Json where
  stringify _ := tuneText
  parse bytes := if bytes = tuneText then some (.object (streamToJSON tune)) else none
  convert type v := if getValueType v = type then some v else none

theorem tuneJson_converts : Converts tuneJson := fun _ => if_pos rfl

theorem tune_returns : Returns tuneJson (streamToJSON tune) :=
  ⟨by simp [tuneJson], by decide⟩

theorem tune_shortened : ∃ w' s', run tuneJson
      [.setDataFromBytes 0 (dataAsBytes tuneJson (.stream tune)), .reset 0]
      { streams := fun id => if id = 0 then some (.clear 0) else none, known := [0] } = some w' ∧
    w'.streams 0 = some s' ∧ Reads w' 0 s'.values ∧ s'.values ≠ tune := by
  obtain ⟨w', s', ran, alive, -, reads, whole, -⟩ := @stream_codec tuneJson tuneJson_converts
    tune tune_returns [.construct 0] _ rfl 0 _ rfl
  refine ⟨w', s', ?_, alive, reads, fun same => ?_⟩
  · rw [← ran]
    congr 2
  · exact absurd (whole.mp same) (by decide)

/- An empty byte array is written and not read back. -/
theorem empty_array_dropped :
    ¬ ∀ (json : Json) (values old : List Value), Converts json → Returns json (streamToJSON values) →
      setDataFromBytes json (.stream old) (dataAsBytes json (.stream values)) =
        some (.stream values) := by
  intro claimed
  have whole := claimed tuneJson tune [] tuneJson_converts tune_returns
  rw [stream_decoded tuneJson_converts tune_returns] at whole
  have same := Body.stream.inj (Option.some.inj whole)
  exact absurd same (by decide)

end Streams

section Wire
variable {json : Json}

theorem readMap_exact (converts : Converts json) {entries : Properties}
    (distinct : (entries.map Prod.fst).Nodup) (returns : Returns json (toJSON entries))
    {old : Properties} (kind : old = entries ∨ old = []) :
    (∃ b', readBody json (.map old) (.map entries) = some b' ∧ SameBody b' (.map entries)) ↔
      Stored entries := by
  unfold readBody
  by_cases none_ : entries = []
  · subst none_
    refine iff_of_true ?_ (fun p member => by cases member)
    rw [if_pos (by simp [dataAsBytes])]
    rcases kind with rfl | rfl <;> exact ⟨_, rfl, fun _ => rfl⟩
  · have data : dataAsBytes json (.map entries) = json.stringify (toJSON entries) := by
      simp [dataAsBytes, none_]
    have decoded : setDataFromBytes json (.map old) (json.stringify (toJSON entries)) =
        (fromJSON json [] (toJSON entries)).map .map := by
      simp [setDataFromBytes, returns.2, Json.parseObject, returns.1]
    rw [data, if_neg returns.2, decoded]
    refine Iff.trans ?_ (fromJSON_exact converts distinct)
    constructor
    · rintro ⟨b', read, same⟩
      obtain ⟨ps', inner, rfl⟩ := Option.map_eq_some_iff.mp read
      exact ⟨ps', inner, same⟩
    · rintro ⟨ps', inner, same⟩
      exact ⟨.map ps', by rw [inner]; rfl, same⟩

theorem readStream_exact (converts : Converts json) {values : List Value}
    (returns : Returns json (streamToJSON values)) {old : List Value}
    (kind : old = values ∨ old = []) :
    (∃ b', readBody json (.stream old) (.stream values) = some b' ∧
      SameBody b' (.stream values)) ↔ ∀ v ∈ values, v ≠ .bytes [] := by
  have kept : values.filter (· ≠ .bytes []) = values ↔ ∀ v ∈ values, v ≠ .bytes [] := by
    simp [List.filter_eq_self]
  unfold readBody
  split
  · rename_i empty
    have none_ : values = [] := by
      by_contra some_
      rw [dataAsBytes, if_neg some_] at empty
      exact returns.2 empty
    subst none_
    refine iff_of_true ?_ (fun v member => by cases member)
    rcases kind with rfl | rfl <;> exact ⟨_, rfl, rfl⟩
  · rw [stream_decoded converts returns old, ← kept]
    constructor
    · rintro ⟨b', read, same⟩
      cases read
      exact Body.stream.inj same
    · intro whole
      exact ⟨_, rfl, congrArg Body.stream whole⟩

theorem readBody_exact (converts : Converts json) {b old : Body} (kind : old = b ∨ old = b.shell)
    (distinct : DistinctNames b) (name : ShortName b)
    (returns : ∀ o ∈ bodyDocuments b, Returns json o) :
    (∃ b', readBody json old b = some b' ∧ SameBody b' b) ↔ StoredBody b := by
  have plain : SameBody b b → (dataAsBytes json b = [] → b.shell = b) →
      setDataFromBytes json old (dataAsBytes json b) = some b →
      ∃ b', readBody json old b = some b' ∧ SameBody b' b := by
    intro same empty filled
    unfold readBody
    split
    · rename_i none_
      rcases kind with rfl | rfl
      · exact ⟨_, rfl, same⟩
      · exact ⟨_, rfl, (empty none_).symm ▸ same⟩
    · exact ⟨_, filled, same⟩
  cases b with
  | text text =>
    refine iff_of_true (plain rfl (fun none_ => congrArg Body.text none_.symm) ?_) trivial
    rcases kind with rfl | rfl <;> rfl
  | bytes data =>
    refine iff_of_true (plain rfl (fun none_ => congrArg Body.bytes none_.symm) ?_) trivial
    rcases kind with rfl | rfl <;> rfl
  | object className body =>
    have back := @object_written json className body name
    refine iff_of_true (plain rfl (fun none_ => ?_) ?_) trivial
    · simp [dataAsBytes, leBytes] at none_
    · rcases kind with rfl | rfl <;> exact back
  | map entries =>
    have one := returns (toJSON entries) (by simp [bodyDocuments])
    rcases kind with rfl | rfl
    · exact readMap_exact converts distinct one (Or.inl rfl)
    · exact readMap_exact converts distinct one (Or.inr rfl)
  | stream values =>
    have one := returns (streamToJSON values) (by simp [bodyDocuments])
    rcases kind with rfl | rfl
    · exact readStream_exact converts one (Or.inl rfl)
    · exact readStream_exact converts one (Or.inr rfl)

/-- What `recv` does to a message it took out of its queue: the cached bytes, or those of the
    record, are read into it without their first. -/
def rehydrate (json : Json) (m : Content) (stored : Bytes) : Option Content :=
  if m.reliability = .PERSISTENT then fromBytes json m (stored.drop 1) else some m

/-- A message that is taken as `m` from its queue is delivered as `c`. -/
def Delivers (json : Json) (m c : Content) : Prop :=
  ∃ c', rehydrate json m (storageBytes json c) = some c' ∧ Same c' c

/-- What a replay enqueues for a record: the type is right and the rest is empty or is going to
    be read. -/
structure Shell (m c : Content) : Prop where
  reliability : m.reliability = .PERSISTENT
  properties : m.properties = []
  body : m.body = c.body.shell

theorem delivers_iff {m c : Content} (persistent : m.reliability = .PERSISTENT)
    (machine : Machine c) (strings : ShortStrings c.headers)
    (short : (json.stringify (toJSON c.properties)).length < 2 ^ 32)
    (returns : Returns json (toJSON c.properties)) :
    Delivers json m c ↔
      (∃ ps, fromJSON json m.properties (toJSON c.properties) = some ps ∧
        ∀ name, get ps name = get c.properties name) ∧
      ∃ b, readBody json m.body c.body = some b ∧ SameBody b c.body := by
  have bytes : rehydrate json m (storageBytes json c) =
      (fromJSON json m.properties (toJSON c.properties)).bind fun ps =>
        (readBody json m.body c.body).map fun b => { c with properties := ps, body := b } := by
    rw [rehydrate, if_pos persistent, storageBytes, List.drop_succ_cons, List.drop_zero]
    exact fromBytes_toBytes m machine strings short returns
  unfold Delivers
  rw [bytes]
  constructor
  · rintro ⟨c', read, same⟩
    obtain ⟨ps, first, rest⟩ := Option.bind_eq_some_iff.mp read
    obtain ⟨b, second, rfl⟩ := Option.map_eq_some_iff.mp rest
    exact ⟨⟨ps, first, same.properties⟩, b, second, same.body⟩
  · rintro ⟨⟨ps, first, properties⟩, b, second, body⟩
    refine ⟨{ c with properties := ps, body := b }, ?_, rfl, rfl, rfl, rfl, properties, body⟩
    rw [first, Option.bind_some, second, Option.map_some]

/-- A map comes back from its document exactly when it has no null and no empty byte array. A
    persistent message is delivered unchanged from its record exactly when its properties and its
    body are so; in the queue it was sent to it still has its properties, and there only a null
    scalar among them is thrown at. -/
theorem map_codec (json : Json) (converts : Converts json) :
    (∀ ps : Properties, (ps.map Prod.fst).Nodup →
      ((∃ ps', fromJSON json [] (toJSON ps) = some ps' ∧ ∀ name, get ps' name = get ps name) ↔
        Stored ps)) ∧
    ∀ c : Content, c.reliability = .PERSISTENT → Machine c → ShortStrings c.headers →
      ShortName c.body → (json.stringify (toJSON c.properties)).length < 2 ^ 32 →
      (∀ o ∈ documents c, Returns json o) →
      (∀ m, Shell m c → (Delivers json m c ↔ Stored c.properties ∧ StoredBody c.body)) ∧
      (Delivers json c c ↔ (¬ ∃ p ∈ c.properties, NullScalar p.2) ∧ StoredBody c.body) := by
  refine ⟨fun ps distinct => fromJSON_exact converts distinct, ?_⟩
  intro c persistent machine strings name short returns
  have head : Returns json (toJSON c.properties) := returns _ List.mem_cons_self
  have tail : ∀ o ∈ bodyDocuments c.body, Returns json o := fun o member =>
    returns o (List.mem_cons_of_mem _ member)
  constructor
  · intro m shell
    rw [delivers_iff shell.reliability machine strings short head, shell.properties,
      fromJSON_exact converts machine.names,
      readBody_exact converts (Or.inr shell.body) machine.bodyNames name tail]
  · rw [delivers_iff persistent machine strings short head,
      fromJSON_itself converts machine.names,
      readBody_exact converts (Or.inl rfl) machine.bodyNames name tail]

theorem letter_delivered : Stored letter.properties ∧ Delivers letterJson letter letter := by
  have codec := map_codec letterJson fun v => if_pos rfl
  have machine : Machine letter :=
    ⟨by unfold Fits; decide, ⟨by unfold Fits; decide, by unfold Fits; decide,
      by unfold Fits; decide, by unfold Fits; decide, by unfold Fits; decide⟩, by decide, trivial⟩
  have returns : ∀ o ∈ documents letter, Returns letterJson o := by
    intro o member
    rw [List.mem_singleton.mp member]
    exact ⟨by simp [letterJson], by decide⟩
  have stored : Stored letter.properties := by
    refine (codec.1 letter.properties (by decide)).mp ⟨letter.properties, by decide, ?_⟩
    exact fun _ => rfl
  refine ⟨stored, ?_⟩
  refine (codec.2 letter rfl machine ⟨by decide, by decide, by decide, by decide⟩ trivial
    (by decide) returns).2.mpr ⟨?_, trivial⟩
  exact ((stored_iff (by decide)).mp stored).1

def nullCount : Properties := [(str ['n'], .null .INTEGER_TYPE)]

/- Reading a null of a scalar type back throws. -/
theorem null_thrown_at :
    ¬ ∀ (json : Json) (ps : Properties), Converts json → (ps.map Prod.fst).Nodup →
      ∃ ps', fromJSON json [] (toJSON ps) = some ps' ∧ ∀ name, get ps' name = get ps name := by
  intro claimed
  obtain ⟨ps', read, -⟩ := claimed plainJson nullCount (fun v => rfl) (by decide)
  have thrown : fromJSON plainJson [] (toJSON nullCount) = none :=
    (toJSON_throws (fun v => rfl) (by decide) []).mpr
      ⟨_, List.mem_singleton.mpr rfl, .INTEGER_TYPE, by decide, rfl⟩
  rw [thrown] at read
  cases read

end Wire

end TinyMqCodecLosses
