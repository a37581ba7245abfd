import TinyMq.Broker.WireFormat

/-!
What `fromBytes` reads of the bytes that `toBytes` wrote. A reader sees the bytes behind
its offset only, so each part of the format is read back on its own, whatever stands in
front of it.
-/
namespace TinyMqWireRoundTrip
open ByteStrings DelimitedText AssocLists TinyMqTom TinyMqMessage TinyMqWireFormat

section Shifts
variable (json : Json) (m : Content) (front rest : Bytes) (off : Nat)

theorem slice_shift (len : Nat) :
    slice (front.length + off) len (front ++ rest) = slice off len rest :=
  slice_skip rfl off len rest

theorem readString_shift : readString (front ++ rest) (front.length + off) =
    (readString rest off).map fun r => (r.1, front.length + r.2) := by
  unfold readString
  simp only [List.length_append, slice_shift, Nat.add_assoc, Nat.add_lt_add_iff_left]
  split
  · rfl
  · split <;> rfl

theorem readData_shift : readData json m (front ++ rest) (front.length + off) =
    readData json m rest off := by
  unfold readData
  rw [List.length_append, ← List.drop_drop, List.drop_left]
  simp only [Nat.add_lt_add_iff_left]

theorem readProperties_shift : readProperties json m (front ++ rest) (front.length + off) =
    readProperties json m rest off := by
  unfold readProperties
  simp only [List.length_append, slice_shift, Nat.add_assoc, Nat.add_lt_add_iff_left,
    Nat.add_le_add_iff_left, readData_shift]

theorem readStrings_shift : readStrings json m (front ++ rest) (front.length + off) =
    readStrings json m rest off := by
  unfold readStrings
  rw [readString_shift]
  cases readString rest off with
  | none => rfl
  | some r =>
    simp only [Option.map_some]
    rw [readString_shift]
    cases readString rest r.2 with
    | none => rfl
    | some r =>
      simp only [Option.map_some]
      rw [readString_shift]
      cases readString rest r.2 with
      | none => rfl
      | some r =>
        simp only [Option.map_some]
        rw [readString_shift]
        cases readString rest r.2 with
        | none => rfl
        | some r =>
          simp only [Option.map_some]
          rw [readProperties_shift]

theorem readHeaders_shift : readHeaders json m (front ++ rest) (front.length + off) =
    readHeaders json m rest off := by
  have flag : ∀ n, (front ++ rest).getD (front.length + n) 0 = rest.getD n 0 := by
    intro n
    simp [List.getD_eq_getElem?_getD, List.getElem?_append_right]
  unfold readHeaders
  simp only [List.length_append, slice_shift, Nat.add_assoc, Nat.add_lt_add_iff_left, flag,
    readStrings_shift]

end Shifts

section Documents
variable {json : Json}

/-- The conversion of a scalar to its own type gives it back. -/
def Converts (json : Json) : Prop := ∀ v, json.convert (getValueType v) v = some v

/-- The document comes back from its text, which is not empty. -/
def Returns (json : Json) (o : Object) : Prop :=
  json.parse (json.stringify o) = some (.object o) ∧ json.stringify o ≠ []

theorem get_set_same (name : Str) (v : Var) (o : Object) :
    get (Object.set name v o) name = some v := by
  induction o with
  | nil => simp [Object.set, get_cons]
  | cons f o ih =>
    by_cases same : f.1 = name
    · simp [Object.set, same, get_cons]
    · by_cases less : name < f.1
      · simp [Object.set, same, less, get_cons]
      · simp [Object.set, same, less, get_cons, ih]

theorem get_set_other {name other : Str} (differ : other ≠ name) (v : Var) (o : Object) :
    get (Object.set name v o) other = get o other := by
  induction o with
  | nil => simp [Object.set, get_cons, differ.symm]
  | cons f o ih =>
    by_cases same : f.1 = name
    · simp [Object.set, same, get_cons, differ.symm]
    · by_cases less : name < f.1
      · simp [Object.set, same, less, get_cons, differ.symm]
      · simp [Object.set, same, less, get_cons, ih]

theorem mem_set {name : Str} {v : Var} {o : Object} {f : Str × Var}
    (member : f ∈ Object.set name v o) : f = (name, v) ∨ f ∈ o := by
  induction o with
  | nil => exact Or.inl (List.mem_singleton.mp member)
  | cons e o ih =>
    unfold Object.set at member
    split at member
    · exact (List.mem_cons.mp member).imp id fun later => List.mem_cons_of_mem e later
    · split at member
      · exact List.mem_cons.mp member
      · rcases List.mem_cons.mp member with here | later
        · exact Or.inr (List.mem_cons.mpr (Or.inl here))
        · exact (ih later).imp id fun old => List.mem_cons_of_mem e old

theorem get_toJSON {ps : Properties} (distinct : (ps.map Prod.fst).Nodup) (name : Str) :
    get (toJSON ps) name = (get ps name).map entryToJSON := by
  have fold : ∀ (ps : Properties) (o : Object), (ps.map Prod.fst).Nodup →
      get (ps.foldl (fun o p => Object.set p.1 (entryToJSON p.2) o) o) name =
        ((get ps name).map entryToJSON).or (get o name) := by
    intro ps
    induction ps with
    | nil => exact fun o _ => rfl
    | cons p ps ih =>
      intro o distinct
      rw [List.map_cons, List.nodup_cons] at distinct
      rw [List.foldl_cons, ih _ distinct.2, get_cons]
      by_cases same : p.1 = name
      · have absent : get ps name = none := by
          cases found : get ps name with
          | none => rfl
          | some q =>
            have member : p.1 ∈ ps.map Prod.fst :=
              List.mem_map.mpr ⟨_, get_mem found, same.symm⟩
            exact absurd member distinct.1
        rw [absent, if_pos same, ← same, get_set_same]
        rfl
      · rw [if_neg same, get_set_other (Ne.symm same)]
  rw [toJSON, fold ps [] distinct]
  cases get ps name <;> rfl

theorem mem_toJSON {ps : Properties} {f : Str × Var} (member : f ∈ toJSON ps) :
    ∃ p ∈ ps, f = (p.1, entryToJSON p.2) := by
  have fold : ∀ (ps : Properties) (o : Object),
      f ∈ ps.foldl (fun o p => Object.set p.1 (entryToJSON p.2) o) o →
        f ∈ o ∨ ∃ p ∈ ps, f = (p.1, entryToJSON p.2) := by
    intro ps
    induction ps with
    | nil => exact fun o inside => Or.inl inside
    | cons p ps ih =>
      intro o inside
      rcases ih _ inside with first | ⟨q, later, same⟩
      · rcases mem_set first with here | old
        · exact Or.inr ⟨p, by simp, here⟩
        · exact Or.inl old
      · exact Or.inr ⟨q, List.mem_cons_of_mem p later, same⟩
  rcases fold ps [] member with none_ | found
  · cases none_
  · exact found

@[simp] theorem typeFromString_name (type : ValueType) :
    getValueTypeFromString (getValueTypeName type) = some type := by
  cases type <;> decide

theorem getString_type (converts : Converts json) (type : ValueType) (v : Var) :
    json.getString [(typeKey, .value (.string (getValueTypeName type))), (valueKey, v)] typeKey =
      some (getValueTypeName type) := by
  have text := converts (.string (getValueTypeName type))
  simp only [getValueType] at text
  simp [Json.getString, Json.getValue, get_cons, text]

theorem get_value (a v : Var) : get ([(typeKey, a), (valueKey, v)] : Object) valueKey = some v := by
  have differ : typeKey ≠ valueKey := by decide
  simp [get_cons, differ]

theorem byteElements (converts : Converts json) (data : Bytes) :
    (data.map fun b => Var.value (.byte b)).mapM json.byteElement = some data := by
  induction data with
  | nil => rfl
  | cons b data ih =>
    have byte := converts (.byte b)
    simp only [getValueType] at byte
    simp [List.map_cons, Json.byteElement, byte, ih]

theorem readEntry_written (converts : Converts json) {v : Value} (filled : v ≠ .bytes []) :
    ∃ o, entryToJSON (.value v) = .object o ∧ json.readEntry o = some (some v) := by
  refine ⟨_, rfl, ?_⟩
  unfold Json.readEntry
  rw [getString_type converts]
  simp only [typeFromString_name]
  have own := converts v
  cases v with
  | bytes data =>
    have elements := byteElements converts data
    simp only [getValueType, getArray, get_value, valueToJSON, elements]
    cases data with
    | nil => exact absurd rfl filled
    | cons b data => rfl
  | _ =>
    simp only [getValueType] at own
    simp [getValueType, Json.getValue, get_value, valueToJSON, own]

theorem get_setProperty (ps : Properties) (name other : Str) (p : Property) :
    get (setProperty ps name p) other =
      match get ps other with
      | some q => some q
      | none => if name = other then some p else none := by
  unfold setProperty
  cases found : get ps name with
  | some q =>
    dsimp only
    by_cases same : name = other
    · rw [← same, found]
    · rw [if_neg same]
      cases get ps other <;> rfl
  | none =>
    dsimp only
    by_cases same : name = other
    · rw [← same, found, get_put_same, if_pos rfl]
    · rw [get_put_other _ _ (Ne.symm same), if_neg same]
      cases get ps other <;> rfl

theorem fromJSON_written (converts : Converts json) {fields : Object}
    (stored : ∀ f ∈ fields, ∃ v, v ≠ .bytes [] ∧ f.2 = entryToJSON (.value v)) (ps : Properties) :
    ∃ ps', fromJSON json ps fields = some ps' ∧ ∀ name, (get ps' name).map entryToJSON =
      match get ps name with
      | some p => some (entryToJSON p)
      | none => get fields name := by
  induction fields generalizing ps with
  | nil =>
    refine ⟨ps, rfl, ?_⟩
    intro name
    cases get ps name <;> rfl
  | cons f fields ih =>
    obtain ⟨name, var⟩ := f
    obtain ⟨v, filled, same⟩ := stored (name, var) (by simp)
    obtain ⟨o, document, read⟩ := readEntry_written converts filled
    obtain ⟨ps', rest, all⟩ := ih (fun g member => stored g (List.mem_cons_of_mem _ member))
      (setProperty ps name (.value v))
    dsimp only at same
    rw [same, document]
    refine ⟨ps', by simpa only [fromJSON, read] using rest, ?_⟩
    intro other
    rw [all other, get_setProperty, get_cons]
    cases get ps other with
    | some q => rfl
    | none =>
      dsimp only
      by_cases here : name = other
      · simp only [if_pos here, document]
      · simp only [if_neg here]

theorem valueToJSON_scalar {v : Value} (scalar : getValueType v ≠ .BYTE_ARRAY_TYPE) :
    valueToJSON v = .value v := by
  cases v with
  | bytes data => exact absurd rfl scalar
  | _ => rfl

theorem exists_bytes {v : Value} (array : getValueType v = .BYTE_ARRAY_TYPE) :
    ∃ data, v = .bytes data := by
  cases v with
  | bytes data => exact ⟨data, rfl⟩
  | _ => cases array

theorem valueToJSON_injective {v w : Value} (types : getValueType v = getValueType w)
    (same : valueToJSON v = valueToJSON w) : v = w := by
  by_cases array : getValueType v = .BYTE_ARRAY_TYPE
  · obtain ⟨data, rfl⟩ := exists_bytes array
    obtain ⟨data', rfl⟩ := exists_bytes (types ▸ array)
    simp only [valueToJSON, Var.array.injEq] at same
    have one : Function.Injective fun b : UInt8 => Var.value (.byte b) := by
      intro a b equal
      simpa using equal
    rw [List.map_injective_iff.mpr one same]
  · rw [valueToJSON_scalar array, valueToJSON_scalar (types ▸ array)] at same
    exact Var.value.inj same

theorem entryToJSON_injective : Function.Injective entryToJSON := by
  have names : ∀ {T U : ValueType}, getValueTypeName T = getValueTypeName U → T = U := by
    intro T U same
    have back := congrArg getValueTypeFromString same
    simpa using back
  have solid : ∀ v, valueToJSON v ≠ .null := by
    intro v
    cases v <;> simp [valueToJSON]
  intro p q same
  cases p with
  | value v =>
    cases q with
    | value w =>
      simp only [entryToJSON, Var.object.injEq, List.cons.injEq, Prod.mk.injEq, Var.value.injEq,
        Value.string.injEq, true_and, and_true] at same
      rw [valueToJSON_injective (names same.1) same.2]
    | null U =>
      simp only [entryToJSON, Var.object.injEq, List.cons.injEq, Prod.mk.injEq, true_and,
        and_true] at same
      exact absurd same.2 (solid v)
  | null T =>
    cases q with
    | value w =>
      simp only [entryToJSON, Var.object.injEq, List.cons.injEq, Prod.mk.injEq, true_and,
        and_true] at same
      exact absurd same.2.symm (solid w)
    | null U =>
      simp only [entryToJSON, Var.object.injEq, List.cons.injEq, Prod.mk.injEq, Var.value.injEq,
        Value.string.injEq, true_and, and_true] at same
      rw [names same]

/-- Every entry has a value, and no array is empty. -/
def Stored (ps : Properties) : Prop := ∀ p ∈ ps, ∃ v, v ≠ .bytes [] ∧ p.2 = .value v

theorem properties_written (converts : Converts json) {ps : Properties} (stored : Stored ps)
    (distinct : (ps.map Prod.fst).Nodup) :
    ∃ ps', fromJSON json [] (toJSON ps) = some ps' ∧ ∀ name, get ps' name = get ps name := by
  have entries : ∀ f ∈ toJSON ps, ∃ v, v ≠ .bytes [] ∧ f.2 = entryToJSON (.value v) := by
    intro f member
    obtain ⟨p, inside, rfl⟩ := mem_toJSON member
    obtain ⟨v, filled, same⟩ := stored p inside
    exact ⟨v, filled, by rw [same]⟩
  obtain ⟨ps', read, all⟩ := fromJSON_written converts entries []
  refine ⟨ps', read, ?_⟩
  intro name
  have same := all name
  rw [get_nil] at same
  dsimp only at same
  rw [get_toJSON distinct] at same
  exact Option.map_injective entryToJSON_injective same

theorem stream_written (converts : Converts json) {values : List Value}
    (filled : ∀ v ∈ values, v ≠ .bytes []) :
    streamFromJSON json [] (streamToJSON values) = some values := by
  have loop : ∀ (items front : List Value), (∀ v ∈ items, v ≠ .bytes []) →
      readStream json front (items.map fun v => entryToJSON (.value v)) = some (front ++ items) := by
    intro items
    induction items with
    | nil => exact fun front _ => by simp [readStream]
    | cons v items ih =>
      intro front some_
      obtain ⟨o, document, read⟩ := readEntry_written converts (some_ v (by simp))
      rw [List.map_cons, document]
      simp only [readStream, read]
      rw [ih (front ++ [v]) fun w member => some_ w (List.mem_cons_of_mem v member)]
      simp
  have whole := loop values [] filled
  simpa [streamFromJSON, streamToJSON, getArray, get_cons] using whole

end Documents

section Bodies
variable {json : Json}

def bodyDocuments : Body → List Object
  | .map entries => [toJSON entries]
  | .stream values => [streamToJSON values]
  | _ => []

/-- No null and no empty array in a body. -/
def StoredBody : Body → Prop
  | .map entries => Stored entries
  | .stream values => ∀ v ∈ values, v ≠ .bytes []
  | _ => True

def DistinctNames : Body → Prop
  | .map entries => (entries.map Prod.fst).Nodup
  | _ => True

/-- The class name has a length that four bytes can count. -/
def ShortName : Body → Prop
  | .object className _ => className.length < 2 ^ 32
  | _ => True

/-- The same body; a map is the same when every name has the same entry in it. -/
def SameBody : Body → Body → Prop
  | .map a, .map b => ∀ name, get a name = get b name
  | a, b => a = b

theorem object_written (className body : Bytes) (short : className.length < 2 ^ 32) :
    setDataFromBytes json (.object [] []) (dataAsBytes json (.object className body)) =
      some (.object className body) := by
  have count : className.length % 2 ^ 32 = className.length := Nat.mod_eq_of_lt short
  have word : className.length < 256 ^ 4 := by omega
  have size : slice 0 4 (leBytes 4 className.length ++ (className ++ body)) =
      leBytes 4 className.length := slice_here (leBytes_length ..) _
  have name : slice 4 className.length (leBytes 4 className.length ++ (className ++ body)) =
      className := by
    have skip := @slice_skip (leBytes 4 className.length) 4 (leBytes_length ..) 0 className.length
      (className ++ body)
    rw [Nat.add_zero] at skip
    rw [skip, slice_here rfl]
  have rest : (leBytes 4 className.length ++ (className ++ body)).drop (4 + className.length) =
      body := by
    have length := leBytes_length 4 className.length
    rw [← List.append_assoc, List.drop_left' (by simp)]
  simp only [dataAsBytes, count, List.take_length, List.append_assoc, setDataFromBytes, size, name,
    rest, leNat_leBytes word]
  rw [if_neg (by simp), if_neg (by simp)]

/-- What `fromBytes` makes of a body: nothing when there are no bytes of it. -/
def readBody (json : Json) (old b : Body) : Option Body :=
  if dataAsBytes json b = [] then some old else setDataFromBytes json old (dataAsBytes json b)

theorem body_written (converts : Converts json) {b : Body} (stored : StoredBody b)
    (distinct : DistinctNames b) (short : ShortName b) (returns : ∀ o ∈ bodyDocuments b, Returns json o) :
    ∃ b', readBody json b.shell b = some b' ∧ SameBody b' b := by
  unfold readBody
  cases b with
  | text text =>
    split
    · rename_i empty
      exact ⟨_, rfl, congrArg Body.text empty.symm⟩
    · exact ⟨_, rfl, rfl⟩
  | bytes data =>
    split
    · rename_i empty
      exact ⟨_, rfl, congrArg Body.bytes empty.symm⟩
    · exact ⟨_, rfl, rfl⟩
  | object className body =>
    have some_ : dataAsBytes json (.object className body) ≠ [] := by
      simp [dataAsBytes, leBytes]
    rw [if_neg some_]
    exact ⟨_, object_written className body short, rfl⟩
  | map entries =>
    obtain ⟨parsed, text⟩ := returns (toJSON entries) (by simp [bodyDocuments])
    by_cases none_ : entries = []
    · rw [if_pos (by simp [dataAsBytes, none_]), none_]
      exact ⟨_, rfl, fun _ => rfl⟩
    · have data : dataAsBytes json (.map entries) = json.stringify (toJSON entries) := by
        simp [dataAsBytes, none_]
      obtain ⟨ps', read, all⟩ := properties_written converts stored distinct
      rw [data, if_neg text]
      refine ⟨.map ps', ?_, all⟩
      simp [Body.shell, setDataFromBytes, text, Json.parseObject, parsed, read]
  | stream values =>
    obtain ⟨parsed, text⟩ := returns (streamToJSON values) (by simp [bodyDocuments])
    by_cases none_ : values = []
    · rw [if_pos (by simp [dataAsBytes, none_]), none_]
      exact ⟨_, rfl, rfl⟩
    · have data : dataAsBytes json (.stream values) = json.stringify (streamToJSON values) := by
        simp [dataAsBytes, none_]
      rw [data, if_neg text]
      refine ⟨.stream values, ?_, rfl⟩
      simp [Body.shell, setDataFromBytes, text, Json.parseObject, parsed,
        stream_written converts stored]

end Bodies

section Parts
variable {json : Json}

theorem counted_short {s : Str} (short : s.length < 2 ^ 32) : counted s = s.length :=
  Nat.mod_eq_of_lt short

theorem readString_written {s : Str} (short : s.length < 2 ^ 32) (rest : Bytes) :
    readString (writeString s ++ rest) 0 = some (s, (writeString s).length) := by
  have word : s.length < 256 ^ 4 := by omega
  have size : slice 0 4 (leBytes 4 s.length ++ (s ++ rest)) = leBytes 4 s.length :=
    slice_here (leBytes_length ..) _
  have text : slice 4 s.length (leBytes 4 s.length ++ (s ++ rest)) = s := by
    have skip := @slice_skip (leBytes 4 s.length) 4 (leBytes_length ..) 0 s.length (s ++ rest)
    rw [Nat.add_zero] at skip
    rw [skip, slice_here rfl]
  simp only [readString, writeString, counted_short short, List.take_length, List.append_assoc,
    Nat.zero_add, size, leNat_leBytes word, text]
  rw [if_neg (by simp), if_neg (by simp)]
  simp

theorem readStrings_written (m : Content) {a b c d : Str} (shortA : a.length < 2 ^ 32)
    (shortB : b.length < 2 ^ 32) (shortC : c.length < 2 ^ 32) (shortD : d.length < 2 ^ 32)
    (rest : Bytes) :
    readStrings json m
      (writeString a ++ (writeString b ++ (writeString c ++ (writeString d ++ rest)))) 0 =
      readProperties json { m with headers := { m.headers with
        messageId := a, replyTo := b, correlationId := c, type := d } } rest 0 := by
  have behind : ∀ (front rest : Bytes) (s : Str), s.length < 2 ^ 32 →
      readString (front ++ (writeString s ++ rest)) front.length =
        some (s, (front ++ writeString s).length) := by
    intro front rest s short
    have shift := readString_shift front (writeString s ++ rest) 0
    rw [Nat.add_zero] at shift
    rw [shift, readString_written short]
    simp
  have last := readProperties_shift json { m with headers := { m.headers with
    messageId := a, replyTo := b, correlationId := c, type := d } }
    (writeString a ++ writeString b ++ writeString c ++ writeString d) rest 0
  rw [Nat.add_zero] at last
  rw [← last]
  unfold readStrings
  rw [readString_written shortA]
  dsimp only
  rw [behind (writeString a) _ b shortB]
  dsimp only
  rw [← List.append_assoc, behind (writeString a ++ writeString b) _ c shortC]
  dsimp only
  rw [← List.append_assoc, behind (writeString a ++ writeString b ++ writeString c) _ d shortD]
  dsimp only
  rw [← List.append_assoc]
  rfl

def fixedPart (c : Content) : Bytes :=
  [2] ++ leInt 8 c.number ++ copyTo c.uuid ++ [Reliability.byte c.reliability]

def numbersPart (h : Headers) : Bytes :=
  leInt 8 h.timestamp ++ leInt 8 h.expiration ++ leInt 8 h.deliveryTime ++ leInt 4 h.priority ++
    leInt 4 h.deliveryCount ++ [if h.redelivered then 1 else 0]

def propsText (json : Json) (ps : Properties) : Bytes :=
  if ps = [] then [] else json.stringify (toJSON ps)

def variablePart (json : Json) (c : Content) : Bytes :=
  let propsJson := propsText json c.properties
  let strings := [c.headers.messageId, c.headers.replyTo, c.headers.correlationId, c.headers.type]
  (strings.map writeString).flatten ++ leBytes 4 (propsJson.length % 2 ^ 32) ++
    propsJson.take (propsJson.length % 2 ^ 32) ++ dataAsBytes json c.body ++
    List.replicate (strings.map fun s => s.length - counted s).sum 0

theorem toBytes_layout (json : Json) (c : Content) :
    toBytes json c = fixedPart c ++ (numbersPart c.headers ++ variablePart json c) := by
  simp only [toBytes, fixedPart, numbersPart, variablePart, propsText, List.append_assoc]

@[simp] theorem copyTo_length (u : UUID) : (copyTo u).length = 16 := by simp [copyTo]

@[simp] theorem copyFrom_copyTo (u : UUID) : copyFrom (copyTo u) = u := by
  have word : u.toNat < 256 ^ 16 := by
    have bound := u.isLt
    omega
  simp [copyFrom, copyTo, leNat_leBytes word]

@[simp] theorem fixedPart_length (c : Content) : (fixedPart c).length = kFixed := by
  simp [fixedPart, kFixed]

@[simp] theorem numbersPart_length (h : Headers) : (numbersPart h).length = kHdrNums := by
  simp [numbersPart, kHdrNums]

/-- The integers of the headers have the width of their type. -/
structure MachineHeaders (h : Headers) : Prop where
  timestamp : Fits 8 h.timestamp
  expiration : Fits 8 h.expiration
  deliveryTime : Fits 8 h.deliveryTime
  priority : Fits 4 h.priority
  deliveryCount : Fits 4 h.deliveryCount

def takeNumbers (old h : Headers) : Headers :=
  { old with timestamp := h.timestamp, expiration := h.expiration, deliveryTime := h.deliveryTime,
             priority := h.priority, deliveryCount := h.deliveryCount, redelivered := h.redelivered }

theorem readHeaders_written (m : Content) {h : Headers} (machine : MachineHeaders h) (rest : Bytes) :
    readHeaders json m (numbersPart h ++ rest) 0 =
      readStrings json { m with headers := takeNumbers m.headers h } rest 0 := by
  have shift := readStrings_shift json { m with headers := takeNumbers m.headers h }
    (numbersPart h) rest 0
  rw [Nat.add_zero] at shift
  rw [← shift]
  let flag : UInt8 := if h.redelivered then 1 else 0
  have at0 : slice 0 8 (numbersPart h ++ rest) = leInt 8 h.timestamp := by
    simp [numbersPart, slice]
  have at8 : slice 8 8 (numbersPart h ++ rest) = leInt 8 h.expiration :=
    slice_at (show _ = leInt 8 h.timestamp ++ (leInt 8 h.expiration ++ (leInt 8 h.deliveryTime ++
      leInt 4 h.priority ++ leInt 4 h.deliveryCount ++ [flag] ++ rest)) by simp [numbersPart, flag])
      (by simp) (by simp)
  have at16 : slice 16 8 (numbersPart h ++ rest) = leInt 8 h.deliveryTime :=
    slice_at (show _ = leInt 8 h.timestamp ++ leInt 8 h.expiration ++ (leInt 8 h.deliveryTime ++
      (leInt 4 h.priority ++ leInt 4 h.deliveryCount ++ [flag] ++ rest)) by simp [numbersPart, flag])
      (by simp) (by simp)
  have at24 : slice 24 4 (numbersPart h ++ rest) = leInt 4 h.priority :=
    slice_at (show _ = leInt 8 h.timestamp ++ leInt 8 h.expiration ++ leInt 8 h.deliveryTime ++
      (leInt 4 h.priority ++ (leInt 4 h.deliveryCount ++ [flag] ++ rest)) by simp [numbersPart, flag])
      (by simp) (by simp)
  have at28 : slice 28 4 (numbersPart h ++ rest) = leInt 4 h.deliveryCount :=
    slice_at (show _ = leInt 8 h.timestamp ++ leInt 8 h.expiration ++ leInt 8 h.deliveryTime ++
      leInt 4 h.priority ++ (leInt 4 h.deliveryCount ++ ([flag] ++ rest)) by simp [numbersPart, flag])
      (by simp) (by simp)
  have at32 : (numbersPart h ++ rest).getD 32 0 = flag :=
    getD_at (show _ = leInt 8 h.timestamp ++ leInt 8 h.expiration ++ leInt 8 h.deliveryTime ++
      leInt 4 h.priority ++ leInt 4 h.deliveryCount ++ flag :: rest by simp [numbersPart, flag])
      (by simp) 0
  have redelivered : decide (flag ≠ 0) = h.redelivered := by
    cases known : h.redelivered <;> simp [flag, known]
  unfold readHeaders
  rw [if_neg (by simp)]
  simp only [Nat.zero_add, at0, at8, at16, at24, at28, at32, redelivered, Content.setHeaders,
    intLe_leInt (by decide : 0 < 8) machine.timestamp,
    intLe_leInt (by decide : 0 < 8) machine.expiration,
    intLe_leInt (by decide : 0 < 8) machine.deliveryTime,
    intLe_leInt (by decide : 0 < 4) machine.priority,
    intLe_leInt (by decide : 0 < 4) machine.deliveryCount, numbersPart_length, takeNumbers]

theorem fromBytes_written (m : Content) {c : Content} (number : Fits 8 c.number) (rest : Bytes) :
    fromBytes json m (fixedPart c ++ rest) =
      readHeaders json { m with number := c.number, uuid := c.uuid, reliability := c.reliability }
        (fixedPart c ++ rest) kFixed := by
  have magic : (fixedPart c ++ rest).head? = some 2 := by simp [fixedPart]
  have at1 : slice 1 8 (fixedPart c ++ rest) = leInt 8 c.number := by
    simp [fixedPart, slice]
  have at9 : slice 9 16 (fixedPart c ++ rest) = copyTo c.uuid :=
    slice_at (show _ = 2 :: leInt 8 c.number ++ (copyTo c.uuid ++
      (Reliability.byte c.reliability :: rest)) by simp [fixedPart]) (by simp) (by simp)
  have at25 : (fixedPart c ++ rest).getD 25 0 = Reliability.byte c.reliability :=
    getD_at (show _ = 2 :: leInt 8 c.number ++ copyTo c.uuid ++
      Reliability.byte c.reliability :: rest by simp [fixedPart]) (by simp) 0
  have kind : (if Reliability.byte c.reliability ≠ 0 then Reliability.PERSISTENT
      else .NOT_PERSISTENT) = c.reliability := by
    cases c.reliability <;> rfl
  unfold fromBytes
  rw [magic]
  dsimp only
  rw [if_pos (Or.inr rfl), if_neg (by simp), if_pos rfl, at1, at9, at25, kind, copyFrom_copyTo,
    intLe_leInt (by decide) number]

end Parts

section RoundTrip
variable {json : Json}

/-- A message as the program holds it: integers of their width and maps with distinct names. -/
structure Machine (c : Content) : Prop where
  number : Fits 8 c.number
  headers : MachineHeaders c.headers
  names : (c.properties.map Prod.fst).Nodup
  bodyNames : DistinctNames c.body

/-- No null and no empty array in the properties and the body. -/
structure StoredContent (c : Content) : Prop where
  properties : Stored c.properties
  body : StoredBody c.body

/-- The header strings have lengths that four bytes can count. -/
structure ShortStrings (h : Headers) : Prop where
  messageId : h.messageId.length < 2 ^ 32
  replyTo : h.replyTo.length < 2 ^ 32
  correlationId : h.correlationId.length < 2 ^ 32
  type : h.type.length < 2 ^ 32

def documents (c : Content) : List Object := toJSON c.properties :: bodyDocuments c.body

/-- Everything that is compared of a message and of what was read back. -/
structure Same (a b : Content) : Prop where
  number : a.number = b.number
  uuid : a.uuid = b.uuid
  reliability : a.reliability = b.reliability
  headers : a.headers = b.headers
  properties : ∀ name, get a.properties name = get b.properties name
  body : SameBody a.body b.body

/-- A fresh message of the same type reads this one from its bytes. -/
def RoundTrips (json : Json) (c : Content) : Prop :=
  ∃ c', fromBytes json { body := c.body.shell } (toBytes json c) = some c' ∧ Same c' c

theorem propsText_short {ps : Properties} (short : (json.stringify (toJSON ps)).length < 2 ^ 32) :
    (propsText json ps).length < 2 ^ 32 := by
  unfold propsText
  split
  · simp
  · exact short

theorem readData_body (m : Content) (b : Body) :
    readData json m (dataAsBytes json b) 0 =
      (readBody json m.body b).map fun b' => { m with body := b' } := by
  unfold readData readBody
  by_cases none_ : dataAsBytes json b = []
  · rw [if_pos none_, if_neg (by simp [none_])]
    rfl
  · rw [if_neg none_, if_pos (List.length_pos_iff.mpr none_), List.drop_zero]

/-- What `fromBytes` makes of the text of the properties: nothing when there is none. -/
def readText (json : Json) (old : Properties) (text : Bytes) : Option Properties :=
  if text = [] then some old else (json.parseObject text).bind fun o => fromJSON json old o

/-- The text of the properties as far as four bytes can count it. -/
def cutText (json : Json) (ps : Properties) : Bytes :=
  (propsText json ps).take ((propsText json ps).length % 2 ^ 32)

theorem cutText_length (ps : Properties) :
    (cutText json ps).length = (propsText json ps).length % 2 ^ 32 := by
  rw [cutText, List.length_take, Nat.min_eq_left (Nat.mod_le _ _)]

theorem readProperties_text (m : Content) {c : Content} {text data : Bytes}
    (count : text.length < 2 ^ 32) (body : dataAsBytes json c.body = data) :
    readProperties json m (leBytes 4 text.length ++ (text ++ data)) 0 =
      (readText json m.properties text).bind fun ps =>
        (readBody json m.body c.body).map fun b => { m with properties := ps, body := b } := by
  have bodies : ∀ m : Content, readData json m (leBytes 4 text.length ++ (text ++ data))
      (4 + text.length) = (readBody json m.body c.body).map fun b => { m with body := b } := by
    intro m
    have shift := readData_shift json m (leBytes 4 text.length ++ text) data 0
    have place : (leBytes 4 text.length ++ text).length + 0 = 4 + text.length := by simp
    rw [place, List.append_assoc] at shift
    rw [shift, ← body, readData_body]
  have size : slice 0 4 (leBytes 4 text.length ++ (text ++ data)) = leBytes 4 text.length :=
    slice_here (leBytes_length ..) _
  have word : text.length < 256 ^ 4 := by omega
  have part : slice 4 text.length (leBytes 4 text.length ++ (text ++ data)) = text :=
    slice_at rfl (leBytes_length ..) rfl
  unfold readProperties readText
  rw [if_neg (by simp)]
  simp only [Nat.zero_add, size, leNat_leBytes word, part]
  by_cases none_ : text = []
  · have whole := bodies m
    rw [none_, List.length_nil, Nat.add_zero] at whole
    rw [if_neg (by simp [none_]), if_pos none_, none_, List.length_nil, whole]
    rfl
  · have some_ : 0 < text.length := List.length_pos_iff.mpr none_
    rw [if_pos ⟨some_, by simp⟩, if_neg none_, Option.bind_assoc]
    simp only [bodies]

theorem readText_written {qs : Properties} (returns : Returns json (toJSON qs)) (ps : Properties) :
    readText json ps (propsText json qs) = fromJSON json ps (toJSON qs) := by
  unfold readText propsText
  by_cases none_ : qs = []
  · rw [if_pos (if_pos none_), none_]
    rfl
  · rw [if_neg none_, if_neg returns.2, Json.parseObject, returns.1]
    rfl

theorem variablePart_cut {c : Content} (strings : ShortStrings c.headers) :
    variablePart json c = writeString c.headers.messageId ++ (writeString c.headers.replyTo ++
      (writeString c.headers.correlationId ++ (writeString c.headers.type ++
      (leBytes 4 (cutText json c.properties).length ++
        (cutText json c.properties ++ dataAsBytes json c.body))))) := by
  rw [cutText_length]
  simp [variablePart, cutText, counted_short strings.messageId, counted_short strings.replyTo,
    counted_short strings.correlationId, counted_short strings.type]

theorem fromBytes_headers (m : Content) {c : Content} (number : Fits 8 c.number) :
    fromBytes json m (toBytes json c) =
      readHeaders json { m with number := c.number, uuid := c.uuid, reliability := c.reliability }
        (numbersPart c.headers ++ variablePart json c) 0 := by
  have shift := readHeaders_shift json
    { m with number := c.number, uuid := c.uuid, reliability := c.reliability } (fixedPart c)
    (numbersPart c.headers ++ variablePart json c) 0
  rw [Nat.add_zero, fixedPart_length] at shift
  rw [toBytes_layout, fromBytes_written m number]
  exact shift

theorem fromBytes_cut (m : Content) {c : Content} (machine : Machine c)
    (strings : ShortStrings c.headers) :
    fromBytes json m (toBytes json c) =
      (readText json m.properties (cutText json c.properties)).bind fun ps =>
        (readBody json m.body c.body).map fun b => { c with properties := ps, body := b } := by
  rw [fromBytes_headers m machine.number, readHeaders_written _ machine.headers,
    variablePart_cut strings, readStrings_written _ strings.messageId strings.replyTo
      strings.correlationId strings.type]
  have count : (cutText json c.properties).length < 2 ^ 32 := by
    rw [cutText_length]
    exact Nat.mod_lt _ (by decide)
  exact readProperties_text _ count rfl

theorem cutText_short {ps : Properties} (short : (json.stringify (toJSON ps)).length < 2 ^ 32) :
    cutText json ps = propsText json ps := by
  rw [cutText, Nat.mod_eq_of_lt (propsText_short short), List.take_length]

theorem fromBytes_toBytes (m : Content) {c : Content} (machine : Machine c)
    (strings : ShortStrings c.headers)
    (short : (json.stringify (toJSON c.properties)).length < 2 ^ 32)
    (returns : Returns json (toJSON c.properties)) :
    fromBytes json m (toBytes json c) =
      (fromJSON json m.properties (toJSON c.properties)).bind fun ps =>
        (readBody json m.body c.body).map fun b => { c with properties := ps, body := b } := by
  rw [fromBytes_cut m machine strings, cutText_short short, readText_written returns]

/-- A message comes back from its bytes as it was, provided that the header strings, the text of
    the properties and the class name of an object body have lengths that four bytes can count. -/
theorem wire_round_trip (converts : Converts json) (c : Content) (machine : Machine c)
    (stored : StoredContent c) (strings : ShortStrings c.headers) (name : ShortName c.body)
    (short : (json.stringify (toJSON c.properties)).length < 2 ^ 32)
    (returns : ∀ o ∈ documents c, Returns json o) : RoundTrips json c := by
  obtain ⟨ps, read, properties⟩ := properties_written converts stored.properties machine.names
  obtain ⟨b, whole, body⟩ := body_written converts stored.body machine.bodyNames name
    fun o member => returns o (List.mem_cons_of_mem _ member)
  refine ⟨{ c with properties := ps, body := b }, ?_, ⟨rfl, rfl, rfl, rfl, properties, body⟩⟩
  rw [fromBytes_toBytes _ machine strings short (returns _ List.mem_cons_self)]
  dsimp only
  rw [read, Option.bind_some, whole, Option.map_some]

def letter : Content :=
  { number := 7, uuid := 1, reliability := .PERSISTENT,
    headers := { messageId := str ['I','D'], timestamp := 1700000000123, priority := 9 },
    properties := [(str ['n'], .value (.integer 42))], body := .text (str ['h','i']) }

/-- `{"n":{"type":"INTEGER","value":42}}` -/
def letterText : Bytes :=
  str ['{','"','n','"',':','{','"','t','y','p','e','"',':','"','I','N','T','E','G','E','R','"',',',
    '"','v','a','l','u','e','"',':','4','2','}','}']

def letterJson : Json where
  stringify _ := letterText
  parse bytes := if bytes = letterText then some (.object (toJSON letter.properties)) else none
  convert type v := if getValueType v = type then some v else none

theorem letter_round_trips : RoundTrips letterJson letter := by
  have converts : Converts letterJson := fun v => if_pos rfl
  refine wire_round_trip converts letter ?_ ?_ ?_ trivial (by decide) ?_
  · exact ⟨by unfold Fits; decide, ⟨by unfold Fits; decide, by unfold Fits; decide,
      by unfold Fits; decide, by unfold Fits; decide, by unfold Fits; decide⟩, by decide, trivial⟩
  · refine ⟨?_, trivial⟩
    intro p member
    rw [List.mem_singleton.mp member]
    exact ⟨_, by simp, rfl⟩
  · exact ⟨by decide, by decide, by decide, by decide⟩
  · intro o member
    rw [List.mem_singleton.mp member]
    exact ⟨by simp [letterJson], by decide⟩

def longName (n : Nat) : Content := { body := .object (List.replicate n 65) [] }

def plainJson : Json where
  stringify _ := str ['{','}']
  parse _ := some (.object [])
  convert _ v := some v

theorem longName_machine (n : Nat) : Machine (longName n) := by
  have zero : ∀ width, Fits width 0 := by
    intro width
    have power : (0 : Int) < 2 ^ (8 * width - 1) := Int.pow_pos (by decide)
    exact ⟨by omega, power⟩
  have four : Fits 4 4 := by
    unfold Fits
    decide
  exact ⟨zero 8, ⟨zero 8, zero 8, zero 8, four, zero 4⟩, List.nodup_nil, trivial⟩

theorem toBytes_body (c : Content) {b b' : Body} (same : dataAsBytes json b = dataAsBytes json b') :
    toBytes json { c with body := b } = toBytes json { c with body := b' } := by
  simp only [toBytes, same]

theorem longName_lost {n : Nat} (wraps : n % 2 ^ 32 = 0) :
    fromBytes plainJson { body := .object [] [] } (toBytes plainJson (longName n)) =
      some { body := .object [] [] } := by
  have count : (List.replicate n (65 : UInt8)).length % 2 ^ 32 = 0 := by
    rw [List.length_replicate, wraps]
  have data : dataAsBytes plainJson (.object (List.replicate n 65) []) =
      dataAsBytes plainJson (.object [] []) := by
    simp only [dataAsBytes, count, List.take_zero, List.length_nil, Nat.zero_mod]
  have same : toBytes plainJson (longName n) = toBytes plainJson { body := .object [] [] } :=
    toBytes_body (longName n) data
  rw [same]
  decide

theorem longName_breaks {n : Nat} (wraps : n % 2 ^ 32 = 0) (some_ : 0 < n) :
    ¬ RoundTrips plainJson (longName n) := by
  rintro ⟨c', read, same⟩
  rw [show fromBytes plainJson { body := (longName n).body.shell } (toBytes plainJson (longName n)) =
    some { body := .object [] [] } from longName_lost wraps, Option.some.injEq] at read
  have body := same.body
  rw [← read] at body
  have names : ([] : Str) = List.replicate n 65 := (Body.object.inj body).1
  have lengths := congrArg List.length names
  rw [List.length_replicate, List.length_nil] at lengths
  omega

/- Four bytes count no character of a name of 2^32: it comes back empty. -/
theorem long_name_lost :
    ¬ ∀ (json : Json) (c : Content), Converts json → Machine c → StoredContent c →
      ShortStrings c.headers → (∀ o ∈ documents c, Returns json o) → RoundTrips json c := by
  intro claimed
  refine longName_breaks (Nat.mod_self (2 ^ 32)) (by decide) (claimed plainJson (longName (2 ^ 32))
    (fun v => rfl) (longName_machine _) ?_ ?_ ?_)
  · exact ⟨fun p member => (by cases member), trivial⟩
  · have short : ([] : Str).length < 2 ^ 32 := by decide
    exact ⟨short, short, short, short⟩
  · intro o member
    rw [List.mem_singleton.mp member]
    exact ⟨rfl, by decide⟩

end RoundTrip

end TinyMqWireRoundTrip
