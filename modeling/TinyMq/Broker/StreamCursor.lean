import Mathlib.Data.List.Induction
import TinyMq.Broker.WireFormat

/-!
`PropertiesStream` and `StreamMessage`: a list of values with a cursor kept beside it. An
iterator is the list it was taken from and a node of it, so a copy, whose operations the
compiler generates, holds the nodes of its own and the iterator of its source.
-/
namespace TinyMqStreamCursor
open ByteStrings AssocLists TinyMqMessage TinyMqWireFormat

section Model

/-- `std::list<Poco::Any>::iterator`; `none` is `end()`. -/
@[ext]
structure Iterator where
  list : Nat
  node : Option Nat
  deriving DecidableEq

abbrev Node := Nat × Value

structure PropertiesStream where
  nodes : List Node := []
  offset : Iterator

def PropertiesStream.values (s : PropertiesStream) : List Value := s.nodes.map Prod.snd

/-- `_properties.begin()` of the list of `id`. -/
def PropertiesStream.begin (id : Nat) (s : PropertiesStream) : Iterator :=
  ⟨id, s.nodes.head?.map Prod.fst⟩

/-- The stream messages there are. An identity is the address of a message and of its list;
    `known` holds those that were given, and `address` is the next one for a node. -/
structure World where
  streams : Nat → Option PropertiesStream := fun _ => none
  known : List Nat := []
  address : Nat := 0

def World.set (w : World) (id : Nat) (s : PropertiesStream) : World :=
  { w with streams := fun other => if other = id then some s else w.streams other }

/-- The nodes from an iterator on; there are none behind `end()`, a freed node or a list that
    is gone. -/
def World.ahead (w : World) (it : Iterator) : List Node :=
  match w.streams it.list, it.node with
  | some s, some a => s.nodes.dropWhile fun n => n.1 ≠ a
  | _, _ => []

def allocate (address : Nat) : List Value → List Node
  | [] => []
  | v :: values => (address, v) :: allocate (address + 1) values

def PropertiesStream.write (s : PropertiesStream) (address : Nat) (v : Value) : PropertiesStream :=
  { s with nodes := s.nodes ++ allocate address [v] }

/-- `_properties.clear()`; `begin()` of an empty list is its `end()`. -/
def PropertiesStream.clear (id : Nat) : PropertiesStream := { nodes := [], offset := ⟨id, none⟩ }

/-- `nextValue<T>`: `none` is undefined, as nothing is there to dereference; a value of another
    type is thrown at before the cursor moves. -/
def nextValue (w : World) (id : Nat) (type : ValueType) : Option (Option Value × World) :=
  match w.streams id with
  | none => none
  | some s =>
    match w.ahead s.offset with
    | [] => none
    | n :: rest =>
      if getValueType n.2 = type then
        let offset := { s.offset with node := rest.head?.map Prod.fst }
        some (some n.2, w.set id { s with offset := offset })
      else some (none, w)

/-- `eof`: the cursor against the `end()` of the list of the message. -/
def eof (id : Nat) (s : PropertiesStream) : Bool := s.offset = ⟨id, none⟩

/-- What `PropertiesStream::fromJSON` has written when it ends or throws. -/
def Json.written (json : Json) : List Var → List Value
  | [] => []
  | .object o :: items =>
    match json.readEntry o with
    | none => []
    | some none => Json.written json items
    | some (some v) => v :: Json.written json items
  | _ :: _ => []

/-- The values that `StreamMessage::setDataFromBytes` writes. -/
def Json.values (json : Json) (bytes : Bytes) : List Value :=
  if bytes = [] then []
  else
    match (json.parseObject bytes).bind fun o => getArray o streamKey with
    | none => []
    | some items => Json.written json items

/-- The operations on stream messages. `copy` is the copy constructor as well, of `src` into a
    new message `dst`. -/
inductive Op where
  | construct (id : Nat)
  | write (id : Nat) (v : Value)
  | nextValue (id : Nat) (type : ValueType)
  | reset (id : Nat)
  | clearData (id : Nat)
  | setDataFromBytes (id : Nat) (bytes : Bytes)
  | copy (src dst : Nat)
  | destroy (id : Nat)
  deriving DecidableEq

def World.create (w : World) (id : Nat) (values : List Value) (offset : Iterator) : World :=
  { w.set id { nodes := allocate w.address values, offset := offset } with
    known := id :: w.known, address := w.address + values.length }

/-- One operation; `none` where there is no such message, or where it is undefined. -/
def step (json : Json) (w : World) : Op → Option World
  | .construct id => if id ∈ w.known then none else some (w.create id [] ⟨id, none⟩)
  | .write id v => (w.streams id).map fun s =>
      { w.set id (s.write w.address v) with address := w.address + 1 }
  | .nextValue id type => (nextValue w id type).map Prod.snd
  | .reset id => (w.streams id).map fun s => w.set id { s with offset := s.begin id }
  | .clearData id => (w.streams id).map fun _ => w.set id (.clear id)
  | .setDataFromBytes id bytes => (w.streams id).map fun _ =>
      let values := Json.values json bytes
      { w.set id { PropertiesStream.clear id with nodes := allocate w.address values } with
        address := w.address + values.length }
  | .copy src dst =>
    if dst ∈ w.known then none
    else (w.streams src).map fun s => w.create dst s.values s.offset
  | .destroy id => (w.streams id).map fun _ =>
      { w with streams := fun other => if other = id then none else w.streams other }

def Op.target : Op → Nat
  | .construct id | .write id _ | .nextValue id _ | .reset id => id
  | .clearData id | .setDataFromBytes id _ | .copy _ id | .destroy id => id

/-- Whether an operation takes the cursor from the list of its message; `none` where it
    leaves it in the list it is in. -/
def Op.rewinds : Op → Option Bool
  | .construct _ | .reset _ | .clearData _ | .setDataFromBytes _ _ => some true
  | .copy _ _ => some false
  | .write _ _ | .nextValue _ _ | .destroy _ => none

/-- The message is not a copy, or was reset, cleared or refilled since it was copied. -/
def rewound (ops : List Op) (id : Nat) : Bool :=
  ops.foldl (fun before op => if op.target = id then op.rewinds.getD before else before) false

def run (json : Json) (ops : List Op) (w : World) : Option World :=
  ops.foldlM (step json) w

/-- Reading a stream to its end, each value with its own type: `while (!eof()) read<T>()`. -/
def drain : Nat → World → Nat → Option (List Value)
  | 0, _, _ => none
  | fuel + 1, w, id =>
    match w.streams id with
    | none => none
    | some s =>
      if eof id s then some []
      else
        match w.ahead s.offset with
        | [] => none
        | n :: _ =>
          match nextValue w id (getValueType n.2) with
          | some (some v, w) => (drain fuel w id).map (v :: ·)
          | _ => none

end Model

section Nodes

@[simp] theorem allocate_values (address : Nat) (values : List Value) :
    (allocate address values).map Prod.snd = values := by
  induction values generalizing address with
  | nil => rfl
  | cons v values ih => simp [allocate, ih]

theorem allocate_addresses (address : Nat) (values : List Value) :
    (allocate address values).map Prod.fst = List.range' address values.length := by
  induction values generalizing address with
  | nil => rfl
  | cons v values ih => simp [allocate, ih, List.range'_succ]

theorem allocate_between {address : Nat} {values : List Value} {n : Node}
    (member : n ∈ allocate address values) :
    address ≤ n.1 ∧ n.1 < address + values.length := by
  have place : n.1 ∈ (allocate address values).map Prod.fst := List.mem_map_of_mem member
  rw [allocate_addresses, List.mem_range'_1] at place
  exact place

@[simp] theorem set_same (w : World) (id : Nat) (s : PropertiesStream) :
    (w.set id s).streams id = some s := if_pos rfl

theorem set_other (w : World) {id other : Nat} (s : PropertiesStream) (differ : other ≠ id) :
    (w.set id s).streams other = w.streams other := if_neg differ

@[simp] theorem set_known (w : World) (id : Nat) (s : PropertiesStream) :
    (w.set id s).known = w.known := rfl

@[simp] theorem set_address (w : World) (id : Nat) (s : PropertiesStream) :
    (w.set id s).address = w.address := rfl

theorem ahead_sublist {w : World} {it : Iterator} {s : PropertiesStream}
    (alive : w.streams it.list = some s) : (w.ahead it).Sublist s.nodes := by
  unfold World.ahead
  rw [alive]
  cases it.node with
  | none => exact List.nil_sublist _
  | some a => exact List.dropWhile_sublist _

theorem written_of_readStream {json : Json} {items : List Var} {front values : List Value}
    (read : readStream json front items = some values) : values = front ++ Json.written json items := by
  induction items generalizing front with
  | nil => simpa [readStream, Json.written] using read.symm
  | cons item items ih =>
    cases item with
    | object o =>
      unfold readStream at read
      unfold Json.written
      cases entry : json.readEntry o with
      | none => simp [entry] at read
      | some v =>
        cases v with
        | none => exact ih (by simpa [entry] using read)
        | some v =>
          rw [entry] at read
          simpa using ih read
    | _ => simp [readStream] at read

theorem values_of_setData {json : Json} {old values : List Value} {bytes : Bytes}
    (decoded : setDataFromBytes json (.stream old) bytes = some (.stream values)) :
    Json.values json bytes = values := by
  unfold setDataFromBytes at decoded
  unfold Json.values
  dsimp only at decoded
  split
  · rename_i empty
    simpa [empty] using decoded
  · rename_i filled
    rw [if_neg filled] at decoded
    cases parsed : json.parseObject bytes with
    | none => simp [parsed] at decoded
    | some o =>
      rw [parsed, Option.bind_some] at decoded
      rw [Option.bind_some]
      unfold streamFromJSON at decoded
      cases items : getArray o streamKey with
      | none => simpa [items] using decoded
      | some items' =>
        rw [items] at decoded
        dsimp only at decoded
        obtain ⟨values', read, same⟩ := Option.map_eq_some_iff.mp decoded
        cases same
        simpa using (written_of_readStream read).symm

end Nodes

section Cursors
variable {json : Json}

/-- What holds of one stream: its cursor is in a list that was given, and in a list of its own
    at a node of it. -/
structure Sound (w : World) (id : Nat) (s : PropertiesStream) : Prop where
  known : id ∈ w.known
  list : s.offset.list ∈ w.known
  node : s.offset.list = id → ∀ a, s.offset.node = some a → a ∈ s.nodes.map Prod.fst
  distinct : (s.nodes.map Prod.fst).Nodup
  bounded : ∀ n ∈ s.nodes, n.1 < w.address

def Consistent (w : World) : Prop := ∀ id s, w.streams id = some s → Sound w id s

theorem consistent_start : Consistent {} := by
  intro id s alive
  cases alive

theorem Sound.grow {w w' : World} {id : Nat} {s : PropertiesStream} (sound : Sound w id s)
    (known : ∀ i ∈ w.known, i ∈ w'.known) (address : w.address ≤ w'.address) : Sound w' id s where
  known := known _ sound.known
  list := known _ sound.list
  node := sound.node
  distinct := sound.distinct
  bounded := by
    intro n member
    have low := sound.bounded n member
    omega

theorem Consistent.put {w w' : World} {id : Nat} {s : PropertiesStream} (consistent : Consistent w)
    (streams : w'.streams = (w.set id s).streams) (known : ∀ i ∈ w.known, i ∈ w'.known)
    (address : w.address ≤ w'.address) (sound : Sound w' id s) : Consistent w' := by
  intro other t alive
  rw [streams] at alive
  by_cases same : other = id
  · subst same
    rw [set_same] at alive
    cases alive
    exact sound
  · rw [set_other w s same] at alive
    exact (consistent other t alive).grow known address

theorem next_member {w : World} {it : Iterator} {s : PropertiesStream} {n : Node} {rest : List Node}
    (alive : w.streams it.list = some s) (ahead : w.ahead it = n :: rest) {a : Nat}
    (next : rest.head?.map Prod.fst = some a) : a ∈ s.nodes.map Prod.fst := by
  obtain ⟨m, first, same⟩ := Option.map_eq_some_iff.mp next
  have inside : m ∈ w.ahead it := by
    rw [ahead]
    exact List.mem_cons_of_mem n (List.mem_of_mem_head? first)
  exact List.mem_map.mpr ⟨m, (ahead_sublist alive).mem inside, same⟩

theorem allocate_nodup (address : Nat) (values : List Value) :
    ((allocate address values).map Prod.fst).Nodup := by
  rw [allocate_addresses]
  exact List.nodup_range'

theorem write_distinct {w : World} {id : Nat} {s : PropertiesStream} (sound : Sound w id s)
    (v : Value) : ((s.write w.address v).nodes.map Prod.fst).Nodup := by
  simp only [PropertiesStream.write, List.map_append]
  refine List.Nodup.append sound.distinct (allocate_nodup _ _) ?_
  intro a old new
  obtain ⟨n, member, rfl⟩ := List.mem_map.mp old
  obtain ⟨m, member', same⟩ := List.mem_map.mp new
  have low := sound.bounded n member
  have high := (allocate_between member').1
  omega

theorem nextValue_cases {w w' : World} {id : Nat} {type : ValueType} {r : Option Value}
    (read : nextValue w id type = some (r, w')) :
    ∃ s n rest, w.streams id = some s ∧ w.ahead s.offset = n :: rest ∧
      ((getValueType n.2 = type ∧ r = some n.2 ∧
          w' = w.set id { s with offset := { s.offset with node := rest.head?.map Prod.fst } }) ∨
        (getValueType n.2 ≠ type ∧ r = none ∧ w' = w)) := by
  unfold nextValue at read
  cases alive : w.streams id with
  | none => simp [alive] at read
  | some s =>
    cases ahead : w.ahead s.offset with
    | nil => simp [alive, ahead] at read
    | cons n rest =>
      refine ⟨s, n, rest, rfl, ahead, ?_⟩
      by_cases fits : getValueType n.2 = type
      · simp only [alive, ahead, if_pos fits, Option.some.injEq, Prod.mk.injEq] at read
        exact Or.inl ⟨fits, read.1.symm, read.2.symm⟩
      · simp only [alive, ahead, if_neg fits, Option.some.injEq, Prod.mk.injEq] at read
        exact Or.inr ⟨fits, read.1.symm, read.2.symm⟩

/-- What an operation other than a destruction does: one stream is put, a sound one, and its
    cursor is taken from its own list or stays where it was. -/
structure Puts (w w' : World) (op : Op) (s : PropertiesStream) : Prop where
  streams : w'.streams = (w.set op.target s).streams
  known : ∀ i ∈ w.known, i ∈ w'.known
  address : w.address ≤ w'.address
  sound : Sound w' op.target s
  list : match op.rewinds with
    | some own => s.offset.list = op.target ↔ own
    | none => ∃ before, w.streams op.target = some before ∧ s.offset.list = before.offset.list

theorem create_puts {w : World} {id : Nat} (op : Op) (target : op.target = id) (new : id ∉ w.known)
    (values : List Value) {offset : Iterator} (given : offset.list = id ∨ offset.list ∈ w.known)
    (own : offset.list = id → offset.node = none)
    (rewinds : op.rewinds = some (decide (offset.list = id))) :
    Puts w (w.create id values offset) op { nodes := allocate w.address values, offset := offset } := by
  subst target
  constructor
  · rfl
  · intro i member
    exact List.mem_cons_of_mem _ member
  · exact Nat.le_add_right _ _
  · constructor
    · exact List.mem_cons_self
    · rcases given with same | old
      · exact List.mem_cons.mpr (Or.inl same)
      · exact List.mem_cons_of_mem _ old
    · intro same a at_
      rw [own same] at at_
      cases at_
    · exact allocate_nodup _ _
    · intro n member
      exact (allocate_between member).2
  · simp [rewinds]

theorem write_puts {w : World} (consistent : Consistent w) {id : Nat} {s : PropertiesStream}
    (alive : w.streams id = some s) (v : Value) :
    Puts w { w.set id (s.write w.address v) with address := w.address + 1 } (.write id v)
      (s.write w.address v) := by
  have sound := consistent id s alive
  refine ⟨rfl, fun i member => member, Nat.le_succ _, ?_, s, alive, rfl⟩
  constructor
  · exact sound.known
  · exact sound.list
  · intro own a at_
    have inside := sound.node own a at_
    simp only [PropertiesStream.write, List.map_append, List.mem_append]
    exact Or.inl inside
  · exact write_distinct sound v
  · intro n member
    rcases List.mem_append.mp member with old | new
    · have low := sound.bounded n old
      exact Nat.lt_succ_of_lt low
    · exact (allocate_between new).2

theorem nextValue_puts {w w' : World} (consistent : Consistent w) {id : Nat} {type : ValueType}
    {r : Option Value} (read : nextValue w id type = some (r, w')) :
    ∃ s, Puts w w' (.nextValue id type) s := by
  obtain ⟨s, n, rest, alive, ahead, ⟨-, -, rfl⟩ | ⟨-, -, rfl⟩⟩ := nextValue_cases read
  · have sound := consistent id s alive
    refine ⟨{ s with offset := { s.offset with node := rest.head?.map Prod.fst } }, rfl,
      fun i member => member, Nat.le_refl _, ?_, s, alive, rfl⟩
    constructor
    · exact sound.known
    · exact sound.list
    · intro own a next
      have here : w.streams s.offset.list = some s := own ▸ alive
      exact next_member here ahead next
    · exact sound.distinct
    · exact sound.bounded
  · refine ⟨s, ?_, fun i member => member, Nat.le_refl _, consistent id s alive, s, alive, rfl⟩
    funext other
    by_cases same : other = id
    · rw [same, alive]
      exact (set_same w' id s).symm
    · exact (set_other w' s same).symm

theorem rewind_puts {w w' : World} (consistent : Consistent w) {op : Op} {before s : PropertiesStream}
    (alive : w.streams op.target = some before) (rewinds : op.rewinds = some true)
    (streams : w'.streams = (w.set op.target s).streams) (known : w'.known = w.known)
    (address : w.address ≤ w'.address) (list : s.offset.list = op.target)
    (node : ∀ a, s.offset.node = some a → a ∈ s.nodes.map Prod.fst)
    (distinct : (s.nodes.map Prod.fst).Nodup) (bounded : ∀ n ∈ s.nodes, n.1 < w'.address) :
    Puts w w' op s := by
  have old := (consistent _ before alive).known
  refine ⟨streams, fun i member => known ▸ member, address, ?_, by simp [rewinds, list]⟩
  exact ⟨known ▸ old, known ▸ list ▸ old, fun _ => node, distinct, bounded⟩

theorem step_puts {w w' : World} {op : Op} (consistent : Consistent w)
    (moved : step json w op = some w') : op = .destroy op.target ∨ ∃ s, Puts w w' op s := by
  cases op with
  | construct id =>
    simp only [step] at moved
    split at moved
    · cases moved
    · rename_i new
      cases moved
      exact Or.inr ⟨_, create_puts (.construct id) rfl new [] (Or.inl rfl) (fun _ => rfl)
        (by simp [Op.rewinds, Op.target])⟩
  | copy src dst =>
    simp only [step] at moved
    split at moved
    · cases moved
    · rename_i new
      obtain ⟨s, alive, rfl⟩ := Option.map_eq_some_iff.mp moved
      have sound := consistent src s alive
      have apart : s.offset.list ≠ dst := fun same => new (same ▸ sound.list)
      exact Or.inr ⟨_, create_puts (.copy src dst) rfl new s.values (Or.inr sound.list)
        (fun same => absurd same apart) (by simp [Op.rewinds, Op.target, apart])⟩
  | write id v =>
    obtain ⟨s, alive, rfl⟩ := Option.map_eq_some_iff.mp moved
    exact Or.inr ⟨_, write_puts consistent alive v⟩
  | nextValue id type =>
    obtain ⟨⟨r, after⟩, read, rfl⟩ := Option.map_eq_some_iff.mp moved
    exact Or.inr (nextValue_puts consistent read)
  | reset id =>
    obtain ⟨s, alive, rfl⟩ := Option.map_eq_some_iff.mp moved
    have sound := consistent id s alive
    refine Or.inr ⟨{ s with offset := s.begin id }, rewind_puts consistent alive rfl rfl rfl
      (Nat.le_refl _) rfl ?_ sound.distinct sound.bounded⟩
    intro a at_
    obtain ⟨n, first, same⟩ := Option.map_eq_some_iff.mp at_
    exact List.mem_map.mpr ⟨n, List.mem_of_mem_head? first, same⟩
  | clearData id =>
    obtain ⟨s, alive, rfl⟩ := Option.map_eq_some_iff.mp moved
    refine Or.inr ⟨.clear id, rewind_puts consistent alive rfl rfl rfl (Nat.le_refl _) rfl ?_
      List.nodup_nil ?_⟩
    · intro a at_
      cases at_
    · intro n member
      cases member
  | setDataFromBytes id bytes =>
    obtain ⟨s, alive, rfl⟩ := Option.map_eq_some_iff.mp moved
    refine Or.inr ⟨_, rewind_puts consistent alive rfl rfl rfl (Nat.le_add_right _ _) rfl ?_
      (allocate_nodup _ _) fun n member => (allocate_between member).2⟩
    intro a at_
    cases at_
  | destroy id => exact Or.inl rfl

theorem step_consistent {w w' : World} {op : Op} (consistent : Consistent w)
    (moved : step json w op = some w') : Consistent w' := by
  rcases step_puts consistent moved with destroyed | ⟨s, puts⟩
  · rw [destroyed] at moved
    obtain ⟨s, -, rfl⟩ := Option.map_eq_some_iff.mp moved
    intro id t alive
    dsimp only at alive
    split at alive
    · cases alive
    · exact (consistent id t alive).grow (fun i member => member) (Nat.le_refl _)
  · exact consistent.put puts.streams puts.known puts.address puts.sound

theorem step_other {w w' : World} {op : Op} (consistent : Consistent w)
    (moved : step json w op = some w') {id : Nat} (other : op.target ≠ id) :
    w'.streams id = w.streams id := by
  rcases step_puts consistent moved with destroyed | ⟨s, puts⟩
  · rw [destroyed] at moved
    obtain ⟨s, -, rfl⟩ := Option.map_eq_some_iff.mp moved
    exact if_neg (Ne.symm other)
  · rw [puts.streams]
    exact set_other w s (Ne.symm other)

def OwnCursor (w : World) (id : Nat) : Prop :=
  ∃ s, w.streams id = some s ∧ s.offset.list = id ∧
    ∀ a, s.offset.node = some a → a ∈ s.nodes.map Prod.fst

theorem ownCursor_iff {w : World} (consistent : Consistent w) {id : Nat} {s : PropertiesStream}
    (alive : w.streams id = some s) : OwnCursor w id ↔ s.offset.list = id := by
  constructor
  · rintro ⟨t, found, own, -⟩
    rw [alive] at found
    cases found
    exact own
  · intro own
    exact ⟨s, alive, own, (consistent id s alive).node own⟩

end Cursors

section Reading

def Reads (w : World) (id : Nat) (values : List Value) : Prop := ∃ fuel, drain fuel w id = some values

def PropertiesStream.remaining (s : PropertiesStream) : List Value :=
  match s.offset.node with
  | some a => (s.nodes.dropWhile fun n => n.1 ≠ a).map Prod.snd
  | none => []

theorem dropWhile_at {front back : List Node} {n : Node}
    (distinct : ((front ++ n :: back).map Prod.fst).Nodup) :
    (front ++ n :: back).dropWhile (fun m => m.1 ≠ n.1) = n :: back := by
  have before : ∀ m ∈ front, m.1 ≠ n.1 := by
    intro m member same
    rw [List.map_append, List.nodup_append] at distinct
    exact distinct.2.2 m.1 (List.mem_map_of_mem member) n.1 (by simp) same
  rw [List.dropWhile_append_of_pos (by simpa using before)]
  simp

theorem drain_own {w : World} {id : Nat} {s : PropertiesStream} {front back : List Node}
    (alive : w.streams id = some s) (own : s.offset.list = id) (nodes : s.nodes = front ++ back)
    (node : s.offset.node = back.head?.map Prod.fst) (distinct : (s.nodes.map Prod.fst).Nodup)
    (fuel : Nat) (values : List Value) :
    drain fuel w id = some values ↔ back.length < fuel ∧ values = back.map Prod.snd := by
  induction back generalizing w s front fuel values with
  | nil =>
    have ended : eof id s = true := by
      have offset : s.offset = ⟨id, none⟩ := by
        rw [← own]
        simpa [Iterator.ext_iff] using node
      simp [eof, offset]
    cases fuel with
    | zero => simp [drain]
    | succ fuel => simp [drain, alive, ended, eq_comm]
  | cons n back ih =>
    cases fuel with
    | zero => simp [drain]
    | succ fuel =>
      have going : eof id s = false := by
        simp [eof, Iterator.ext_iff, node]
      have ahead : w.ahead s.offset = n :: back := by
        have here := dropWhile_at (nodes ▸ distinct)
        simp only [World.ahead, own, alive, node, List.head?_cons, Option.map_some, nodes]
        exact here
      let s' : PropertiesStream :=
        { s with offset := { s.offset with node := back.head?.map Prod.fst } }
      have read : nextValue w id (getValueType n.2) = some (some n.2, w.set id s') := by
        simp [nextValue, alive, ahead, s']
      have later := @ih (w.set id s') s' (front ++ [n]) (set_same w id s') own
        (by simp [s', nodes]) rfl distinct fuel
      simp only [drain, alive, going, Bool.false_eq_true, if_false, ahead, read,
        Option.map_eq_some_iff, later, List.length_cons, Nat.add_lt_add_iff_right, List.map_cons]
      constructor
      · rintro ⟨vs, ⟨short, rfl⟩, rfl⟩
        exact ⟨short, rfl⟩
      · rintro ⟨short, rfl⟩
        exact ⟨_, ⟨short, rfl⟩, rfl⟩

theorem drain_foreign {w : World} {id : Nat} {s : PropertiesStream}
    (alive : w.streams id = some s) (foreign : s.offset.list ≠ id) (fuel : Nat) :
    drain fuel w id = none := by
  induction fuel generalizing w s with
  | zero => rfl
  | succ fuel ih =>
    have going : eof id s = false := by
      simp [eof, Iterator.ext_iff, foreign]
    simp only [drain, alive, going, Bool.false_eq_true, if_false]
    cases ahead : w.ahead s.offset with
    | nil => rfl
    | cons n rest =>
      let s' : PropertiesStream :=
        { s with offset := { s.offset with node := rest.head?.map Prod.fst } }
      have read : nextValue w id (getValueType n.2) = some (some n.2, w.set id s') := by
        simp [nextValue, alive, ahead, s']
      have later : drain fuel (w.set id s') id = none := ih (set_same w id s') foreign
      simp only [read, later, Option.map_none]

theorem reads_own {w : World} {id : Nat} {s : PropertiesStream} (sound : Sound w id s)
    (alive : w.streams id = some s) (own : s.offset.list = id) (values : List Value) :
    Reads w id values ↔ values = s.remaining := by
  obtain ⟨front, back, nodes, node, remaining⟩ : ∃ front back, s.nodes = front ++ back ∧
      s.offset.node = back.head?.map Prod.fst ∧ s.remaining = back.map Prod.snd := by
    cases at_ : s.offset.node with
    | none => exact ⟨s.nodes, [], by simp, rfl, by simp [PropertiesStream.remaining, at_]⟩
    | some a =>
      obtain ⟨n, member, rfl⟩ := List.mem_map.mp (sound.node own a at_)
      obtain ⟨front, back, nodes⟩ := List.append_of_mem member
      refine ⟨front, n :: back, nodes, rfl, ?_⟩
      have here := dropWhile_at (nodes ▸ sound.distinct)
      simp only [PropertiesStream.remaining, at_, nodes, here]
  rw [remaining]
  constructor
  · rintro ⟨fuel, read⟩
    exact ((drain_own alive own nodes node sound.distinct fuel values).mp read).2
  · intro same
    exact ⟨back.length + 1, (drain_own alive own nodes node sound.distinct _ values).mpr
      ⟨Nat.lt_succ_self _, same⟩⟩

theorem reset_remaining {id : Nat} {s : PropertiesStream} (start : s.offset = s.begin id) :
    s.remaining = s.values := by
  unfold PropertiesStream.remaining PropertiesStream.values
  rw [start]
  cases nodes : s.nodes with
  | nil => simp [PropertiesStream.begin, nodes]
  | cons n rest => simp [PropertiesStream.begin, nodes]

end Reading

section Runs
variable {json : Json}

theorem run_append {first second : List Op} {w w' : World}
    (ran : run json (first ++ second) w = some w') :
    ∃ middle, run json first w = some middle ∧ run json second middle = some w' := by
  unfold run at ran ⊢
  rw [List.foldlM_append] at ran
  exact Option.bind_eq_some_iff.mp ran

theorem run_snoc {ops : List Op} {op : Op} {w w' : World}
    (ran : run json (ops ++ [op]) w = some w') :
    ∃ middle, run json ops w = some middle ∧ step json middle op = some w' := by
  obtain ⟨middle, first, last⟩ := run_append ran
  exact ⟨middle, first, by simpa [run] using last⟩

theorem run_consistent {ops : List Op} {w w' : World} (consistent : Consistent w)
    (ran : run json ops w = some w') : Consistent w' := by
  induction ops using List.reverseRecOn generalizing w' with
  | nil =>
    cases ran
    exact consistent
  | append_singleton ops op ih =>
    obtain ⟨middle, first, last⟩ := run_snoc ran
    exact step_consistent (ih first) last

theorem run_other {ops : List Op} {w w' : World} (consistent : Consistent w)
    (ran : run json ops w = some w') {id : Nat} (others : ∀ op ∈ ops, op.target ≠ id) :
    w'.streams id = w.streams id := by
  induction ops using List.reverseRecOn generalizing w' with
  | nil =>
    cases ran
    rfl
  | append_singleton ops op ih =>
    obtain ⟨middle, first, last⟩ := run_snoc ran
    rw [step_other (run_consistent consistent first) last (others op (by simp))]
    exact ih first fun o member => others o (List.mem_append_left _ member)

theorem rewound_snoc (ops : List Op) (op : Op) (id : Nat) :
    rewound (ops ++ [op]) id =
      if op.target = id then op.rewinds.getD (rewound ops id) else rewound ops id := by
  simp [rewound]

theorem step_list {w w' : World} {op : Op} (consistent : Consistent w)
    (moved : step json w op = some w') {s : PropertiesStream}
    (alive : w'.streams op.target = some s) :
    match op.rewinds with
    | some own => s.offset.list = op.target ↔ own
    | none => ∃ before, w.streams op.target = some before ∧ s.offset.list = before.offset.list := by
  rcases step_puts consistent moved with destroyed | ⟨t, puts⟩
  · rw [destroyed] at moved
    obtain ⟨t, -, rfl⟩ := Option.map_eq_some_iff.mp moved
    simp at alive
  · rw [puts.streams, set_same] at alive
    cases alive
    exact puts.list

theorem run_list {ops : List Op} {w : World} (ran : run json ops {} = some w) {id : Nat}
    {s : PropertiesStream} (alive : w.streams id = some s) :
    s.offset.list = id ↔ rewound ops id := by
  induction ops using List.reverseRecOn generalizing w s with
  | nil =>
    cases ran
    cases alive
  | append_singleton ops op ih =>
    obtain ⟨middle, first, last⟩ := run_snoc ran
    have consistent := run_consistent consistent_start first
    rw [rewound_snoc]
    by_cases here : op.target = id
    · subst here
      rw [if_pos rfl]
      have list := step_list consistent last alive
      cases rewinds : op.rewinds with
      | some own =>
        rw [rewinds] at list
        exact list
      | none =>
        rw [rewinds] at list
        obtain ⟨before, old, same⟩ := list
        rw [same]
        exact ih first old
    · rw [if_neg here]
      rw [step_other consistent last here] at alive
      exact ih first alive

theorem rewound_alive {ops : List Op} {w : World} (ran : run json ops {} = some w)
    (noCopy : ∀ op ∈ ops, op.rewinds ≠ some false) {id : Nat} {s : PropertiesStream}
    (alive : w.streams id = some s) : rewound ops id := by
  induction ops using List.reverseRecOn generalizing w s with
  | nil =>
    cases ran
    cases alive
  | append_singleton ops op ih =>
    obtain ⟨middle, first, last⟩ := run_snoc ran
    have consistent := run_consistent consistent_start first
    have earlier : ∀ o ∈ ops, o.rewinds ≠ some false := fun o member =>
      noCopy o (List.mem_append_left _ member)
    rw [rewound_snoc]
    by_cases here : op.target = id
    · subst here
      rw [if_pos rfl]
      have list := step_list consistent last alive
      cases rewinds : op.rewinds with
      | some own =>
        cases own with
        | true => rfl
        | false => exact absurd rewinds (noCopy op (by simp))
      | none =>
        rw [rewinds] at list
        obtain ⟨before, old, -⟩ := list
        exact ih first earlier old
    · rw [if_neg here]
      rw [step_other consistent last here] at alive
      exact ih first earlier alive

/-- In every state of the run each cursor is in the list of its own message, and a copy reads
    what its source had left to read, whatever is done to others. -/
structure Integrity (json : Json) (ops : List Op) : Prop where
  own : ∀ front w, front <+: ops → run json front {} = some w →
    ∀ id s, w.streams id = some s → OwnCursor w id
  copies : ∀ front src dst later w₀ w, front ++ .copy src dst :: later <+: ops →
    run json front {} = some w₀ → run json (front ++ .copy src dst :: later) {} = some w →
    (∀ op ∈ later, op.target ≠ dst) → ∀ values, Reads w₀ src values ↔ Reads w dst values

theorem copy_breaks {ops : List Op} {w : World} (ran : run json ops {} = some w)
    (integrity : Integrity json ops) : ∀ op ∈ ops, op.rewinds ≠ some false := by
  intro op member rewinds
  obtain ⟨front, back, rfl⟩ := List.append_of_mem member
  have parted : front ++ op :: back = (front ++ [op]) ++ back := by simp
  obtain ⟨after, first, -⟩ := run_append (parted ▸ ran)
  obtain ⟨before, earlier, last⟩ := run_snoc first
  have consistent := run_consistent consistent_start earlier
  cases op with
  | copy src dst =>
    rcases step_puts consistent last with destroyed | ⟨s, puts⟩
    · cases destroyed
    · have alive : after.streams dst = some s := by
        rw [puts.streams]
        exact set_same before dst s
      have own := integrity.own _ after ⟨back, by simp⟩ first dst s alive
      rw [ownCursor_iff (step_consistent consistent last) alive] at own
      exact absurd (puts.list.mp own) (by simp)
  | _ => cases rewinds

/-- The cursors are intact in a run exactly when nothing is copied in it. A copy holds the
    iterator of its source: until it is reset, cleared or refilled its cursor is in a list that is
    not its own and reading it never ends well. A message whose cursor is its own reads the same
    whatever is done to the others. -/
theorem cursor_integrity (json : Json) (ops : List Op) (w : World)
    (ran : run json ops {} = some w) :
    (Integrity json ops ↔ ∀ op ∈ ops, op.rewinds ≠ some false) ∧
    ∀ id s, w.streams id = some s →
      (OwnCursor w id ↔ rewound ops id) ∧
      ((∃ values, Reads w id values) ↔ rewound ops id) ∧
      (rewound ops id → ∀ more w', run json more w = some w' → (∀ op ∈ more, op.target ≠ id) →
        ∀ values, Reads w' id values ↔ Reads w id values) := by
  have consistent := run_consistent consistent_start ran
  refine ⟨⟨copy_breaks ran, ?_⟩, ?_⟩
  · intro noCopy
    constructor
    · intro front w' part first id s alive
      rw [ownCursor_iff (run_consistent consistent_start first) alive, run_list first alive]
      exact rewound_alive first (fun op member => noCopy op (part.subset member)) alive
    · intro front src dst later w₀ w' part
      exact absurd rfl (noCopy (.copy src dst) (part.subset (by simp)))
  · intro id s alive
    have list := run_list ran alive
    refine ⟨(ownCursor_iff consistent alive).trans list, ⟨?_, ?_⟩, ?_⟩
    · rintro ⟨values, fuel, read⟩
      by_contra copied
      have foreign : s.offset.list ≠ id := fun own => copied (list.mp own)
      rw [drain_foreign alive foreign fuel] at read
      cases read
    · intro rewinds
      exact ⟨_, (reads_own (consistent id s alive) alive (list.mpr rewinds) _).mpr rfl⟩
    · intro rewinds more w' later others values
      have same := run_other consistent later others
      have after := run_consistent consistent later
      have alive' : w'.streams id = some s := same.trans alive
      rw [reads_own (after id s alive') alive' (list.mpr rewinds),
        reads_own (consistent id s alive) alive (list.mpr rewinds)]

def twoCopies : List Op :=
  [.construct 0, .write 0 (.byte 1), .write 0 (.byte 2), .reset 0, .nextValue 0 .BYTE_TYPE,
    .copy 0 1, .copy 0 2, .reset 2]

def noJson : Json where
  stringify _ := []
  parse _ := none
  convert _ _ := none

theorem twoCopies_cursors : ∃ w, run noJson twoCopies {} = some w ∧
    OwnCursor w 0 ∧ ¬ OwnCursor w 1 ∧ (¬ ∃ values, Reads w 1 values) ∧ OwnCursor w 2 := by
  obtain ⟨w, ran⟩ : ∃ w, run noJson twoCopies {} = some w := ⟨_, rfl⟩
  have streams : ∀ id, w.streams id = ((run noJson twoCopies {}).getD {}).streams id := by
    intro id
    rw [ran]
    rfl
  have all := (cursor_integrity noJson twoCopies w ran).2
  have zero := all 0 _ (streams 0)
  have one := all 1 _ (streams 1)
  have two := all 2 _ (streams 2)
  refine ⟨w, ran, zero.1.mpr (by decide), ?_, ?_, two.1.mpr (by decide)⟩
  · rw [one.1]
    decide
  · rw [one.2.1]
    decide

/- The cursor of a copy is in the list of its source. -/
theorem copy_shares_cursor :
    ¬ ∀ (json : Json) (ops : List Op) (w : World), run json ops {} = some w → Integrity json ops := by
  intro claimed
  obtain ⟨w, ran⟩ : ∃ w, run noJson twoCopies {} = some w := ⟨_, rfl⟩
  have copied := copy_breaks ran (claimed noJson twoCopies w ran) (.copy 0 1)
  exact copied (by decide) rfl

end Runs

end TinyMqStreamCursor
