import TinyMq.Broker.CodecLosses
import TinyMq.Broker.Fanout
import TinyMq.Broker.Frames

/-!
What a consumer of the dead-letter queue receives: the copy that `deadLetter` made, as it lies
in the queue, as its cached bytes are read back into it, or as a replay reads its record.
-/
namespace TinyMqDeadLetterCopies
open ByteStrings AssocLists BandQueues TinyMqTom TinyMqMessage TinyMqStore TinyMqDestination
open TinyMqSession TinyMqFanout TinyMqFrames TinyMqWireFormat TinyMqWireRoundTrip
open TinyMqStoredOffsets TinyMqCodecLosses

/-- `deadLetter` for any reason: the copy with the delivery time reset and the reason set. -/
def deadLetter (c : Content) (reason : Str) : Content :=
  { c.withDeliveryTime 0 with
    properties := setProperty c.properties deadLetterReason (.value (.string reason)) }

/-- What is asked of a copy that is received for `origin`. -/
structure Faithful (origin : Content) (reason : Str) (c : Content) : Prop where
  body : SameBody c.body origin.body
  uuid : c.uuid = origin.uuid
  reliability : c.reliability = origin.reliability
  headers : c.headers = { origin.headers with deliveryTime := 0 }
  others : ∀ name, name ≠ deadLetterReason → get c.properties name = get origin.properties name
  reason : get c.properties deadLetterReason = some (.value (.string reason))

def Unmarked (c : Content) (reason : Str) : Prop :=
  ∀ p, get c.properties deadLetterReason = some p → p = .value (.string reason)

def textLength (json : Json) (c : Content) (reason : Str) : Nat :=
  (json.stringify (toJSON (deadLetter c reason).properties)).length

def CutsThrow (json : Json) (o : Object) : Prop :=
  ∀ n, 0 < n → n < (json.stringify o).length → json.parse ((json.stringify o).take n) = none

section Copy
variable {c : Content} {reason : Str}

theorem copy_properties (m : Message) (oid : Nat) :
    (deadLetterCopy m oid).content = deadLetter m.content maxRedeliveriesExceeded := rfl

theorem get_copy (c : Content) (reason name : Str) :
    get (deadLetter c reason).properties name =
      if name = deadLetterReason then
        (get c.properties deadLetterReason).or (some (.value (.string reason)))
      else get c.properties name := by
  rw [deadLetter, get_setProperty]
  by_cases here : name = deadLetterReason
  · subst here
    cases get c.properties deadLetterReason <;> simp
  · rw [if_neg here, if_neg (Ne.symm here)]
    cases get c.properties name <;> rfl

theorem faithful_iff {r : Content} (body : SameBody r.body c.body) (uuid : r.uuid = c.uuid)
    (reliability : r.reliability = c.reliability)
    (headers : r.headers = { c.headers with deliveryTime := 0 })
    (properties : ∀ name, get r.properties name = get (deadLetter c reason).properties name) :
    Faithful c reason r ↔ Unmarked c reason := by
  constructor
  · intro faithful p found
    have known := faithful.reason
    rw [properties, get_copy, if_pos rfl, found] at known
    exact Option.some.inj known
  · intro unmarked
    refine ⟨body, uuid, reliability, headers, ?_, ?_⟩
    · intro name other
      rw [properties, get_copy, if_neg other]
    · rw [properties, get_copy, if_pos rfl]
      cases found : get c.properties deadLetterReason with
      | none => rfl
      | some p => rw [unmarked p found]; rfl

theorem copy_mem {p : Str × Property} :
    p ∈ (deadLetter c reason).properties ↔ p ∈ c.properties ∨
      get c.properties deadLetterReason = none ∧ p = (deadLetterReason, .value (.string reason)) := by
  unfold deadLetter setProperty
  cases found : get c.properties deadLetterReason with
  | some q => simp
  | none =>
    have mem_put : ∀ ps : Properties, get ps deadLetterReason = none → ∀ v : Property,
        p ∈ put ps deadLetterReason v ↔ p ∈ ps ∨ p = (deadLetterReason, v) := by
      intro ps
      induction ps with
      | nil => simp [put]
      | cons q ps ih =>
        intro absent v
        rw [get_cons] at absent
        by_cases same : q.1 = deadLetterReason
        · rw [if_pos same] at absent
          cases absent
        · rw [if_neg same] at absent
          simp [put, same, ih absent v, or_assoc]
    simp [mem_put c.properties found]

theorem copy_stored : Stored (deadLetter c reason).properties ↔ Stored c.properties := by
  constructor
  · intro stored p member
    exact stored p (copy_mem.mpr (Or.inl member))
  · intro stored p member
    rcases copy_mem.mp member with old | ⟨-, rfl⟩
    · exact stored p old
    · exact ⟨.string reason, by simp, rfl⟩

theorem copy_null : (∃ p ∈ (deadLetter c reason).properties, NullScalar p.2) ↔
    ∃ p ∈ c.properties, NullScalar p.2 := by
  constructor
  · rintro ⟨p, member, null⟩
    rcases copy_mem.mp member with old | ⟨-, rfl⟩
    · exact ⟨p, old, null⟩
    · obtain ⟨type, -, same⟩ := null
      cases same
  · rintro ⟨p, member, null⟩
    exact ⟨p, copy_mem.mpr (Or.inl member), null⟩

theorem copy_names (distinct : (c.properties.map Prod.fst).Nodup) :
    ((deadLetter c reason).properties.map Prod.fst).Nodup := by
  unfold deadLetter setProperty
  cases found : get c.properties deadLetterReason with
  | some q => exact distinct
  | none => exact nodup_put distinct _ _

theorem zero_fits : Fits 8 0 := by
  unfold Fits
  decide

theorem copy_machine (machine : Machine c) : Machine (deadLetter c reason) where
  number := machine.number
  headers := ⟨machine.headers.timestamp, machine.headers.expiration, zero_fits,
    machine.headers.priority, machine.headers.deliveryCount⟩
  names := copy_names machine.names
  bodyNames := machine.bodyNames

theorem copy_filled : (deadLetter c reason).properties ≠ [] := by
  intro empty
  have known := get_copy c reason deadLetterReason
  rw [empty, if_pos rfl, get_nil] at known
  cases found : get c.properties deadLetterReason <;> simp [found] at known

end Copy

section Decoding
variable {json : Json}

def cutHeaders (h : Headers) : Headers :=
  { h with
    messageId := h.messageId.take (counted h.messageId),
    replyTo := h.replyTo.take (counted h.replyTo),
    correlationId := h.correlationId.take (counted h.correlationId),
    type := h.type.take (counted h.type) }

theorem cut_length (s : Str) : (s.take (counted s)).length = counted s := by
  rw [List.length_take, counted, Nat.min_eq_left (Nat.mod_le _ _)]

theorem cut_short (s : Str) : (s.take (counted s)).length < 2 ^ 32 := by
  rw [cut_length]
  exact Nat.mod_lt _ (by decide)

theorem writeString_cut (s : Str) : writeString s = writeString (s.take (counted s)) := by
  have same : counted (s.take (counted s)) = counted s := by
    rw [counted_short (cut_short s), cut_length]
  rw [writeString, writeString, same, List.take_take, Nat.min_self]

theorem readProperties_headers {m r : Content} {bytes : Bytes} {off : Nat}
    (read : readProperties json m bytes off = some r) : r.headers = m.headers := by
  have data : ∀ {m r : Content} {off : Nat}, readData json m bytes off = some r →
      r.headers = m.headers := by
    intro m r off read
    unfold readData at read
    split at read
    · obtain ⟨b, -, rfl⟩ := Option.map_eq_some_iff.mp read
      rfl
    · cases read
      rfl
  unfold readProperties at read
  split at read
  · cases read
    rfl
  · dsimp only at read
    split at read
    · obtain ⟨o, -, rest⟩ := Option.bind_eq_some_iff.mp read
      obtain ⟨ps, -, last⟩ := Option.bind_eq_some_iff.mp rest
      have kept := data last
      exact kept
    · exact data read

theorem decoded_headers {m c r : Content} (machine : Machine c)
    (read : fromBytes json m (toBytes json c) = some r) : r.headers = cutHeaders c.headers := by
  obtain ⟨rest, parts⟩ : ∃ rest, variablePart json c =
      writeString (c.headers.messageId.take (counted c.headers.messageId)) ++
      (writeString (c.headers.replyTo.take (counted c.headers.replyTo)) ++
      (writeString (c.headers.correlationId.take (counted c.headers.correlationId)) ++
      (writeString (c.headers.type.take (counted c.headers.type)) ++ rest))) := by
    simp only [← writeString_cut, variablePart, List.map_cons, List.map_nil, List.flatten_cons,
      List.flatten_nil, List.append_nil, List.append_assoc]
    exact ⟨_, rfl⟩
  rw [fromBytes_headers m machine.number, readHeaders_written _ machine.headers, parts,
    readStrings_written _ (cut_short _) (cut_short _) (cut_short _) (cut_short _)] at read
  rw [readProperties_headers read]
  rfl

theorem cutHeaders_same {h : Headers} (same : cutHeaders h = h) : ShortStrings h := by
  have short : ∀ s : Str, s.take (counted s) = s → s.length < 2 ^ 32 := by
    intro s whole
    rw [← whole]
    exact cut_short s
  simp only [cutHeaders] at same
  exact ⟨short _ (congrArg Headers.messageId same), short _ (congrArg Headers.replyTo same),
    short _ (congrArg Headers.correlationId same), short _ (congrArg Headers.type same)⟩

theorem object_cut (className body : Bytes) : setDataFromBytes json (.object [] [])
    (dataAsBytes json (.object className body)) =
      some (.object (className.take (counted className)) body) := by
  have same : dataAsBytes json (.object className body) =
      dataAsBytes json (.object (className.take (counted className)) body) := by
    have count : counted (className.take (counted className)) = counted className := by
      rw [counted_short (cut_short className), cut_length]
    show leBytes 4 (counted className) ++ className.take (counted className) ++ body = _
    show _ = leBytes 4 (counted (className.take (counted className))) ++
      (className.take (counted className)).take (counted (className.take (counted className))) ++ body
    rw [count, List.take_take, Nat.min_self]
  rw [same]
  exact object_written _ _ (cut_short className)

theorem readBody_iff (converts : Converts json) {b old : Body} (kind : old = b ∨ old = b.shell)
    (distinct : DistinctNames b) (returns : ∀ o ∈ bodyDocuments b, Returns json o) :
    (∃ b', readBody json old b = some b' ∧ SameBody b' b) ↔ StoredBody b ∧ ShortName b := by
  have exact_ := fun name => readBody_exact converts kind distinct name returns
  constructor
  · intro back
    have name : ShortName b := by
      cases b with
      | object className body =>
        obtain ⟨b', read, same⟩ := back
        have some_ : dataAsBytes json (.object className body) ≠ [] := by simp [dataAsBytes, leBytes]
        have decoded : readBody json old (.object className body) =
            some (.object (className.take (counted className)) body) := by
          rw [readBody, if_neg some_]
          rcases kind with rfl | rfl <;> exact object_cut className body
        rw [decoded] at read
        cases read
        have whole : className.take (counted className) = className := (Body.object.inj same).1
        show className.length < 2 ^ 32
        rw [← whole]
        exact cut_short className
      | _ => trivial
    exact ⟨(exact_ name).mp back, name⟩
  · rintro ⟨stored, name⟩
    exact (exact_ name).mpr stored

theorem readText_cut {ps old : Properties} (filled : ps ≠ []) (returns : Returns json (toJSON ps))
    (cuts : CutsThrow json (toJSON ps)) :
    readText json old (cutText json ps) =
      if (json.stringify (toJSON ps)).length % 2 ^ 32 = 0 then some old
      else if (json.stringify (toJSON ps)).length < 2 ^ 32 then fromJSON json old (toJSON ps)
      else none := by
  have text : propsText json ps = json.stringify (toJSON ps) := if_neg filled
  have part : cutText json ps = (json.stringify (toJSON ps)).take
      ((json.stringify (toJSON ps)).length % 2 ^ 32) := by rw [cutText, text]
  have size := @cutText_length json ps
  rw [text] at size
  by_cases none_ : (json.stringify (toJSON ps)).length % 2 ^ 32 = 0
  · rw [if_pos none_, readText, if_pos (List.length_eq_zero_iff.mp (size.trans none_))]
  · rw [if_neg none_]
    by_cases short : (json.stringify (toJSON ps)).length < 2 ^ 32
    · rw [if_pos short, cutText_short short, readText_written returns]
    · have some_ : cutText json ps ≠ [] := by
        intro empty
        rw [empty] at size
        exact none_ size.symm
      have broken := cuts _ (Nat.pos_of_ne_zero none_)
        (Nat.lt_of_lt_of_le (Nat.mod_lt _ (by decide)) (Nat.le_of_not_lt short))
      rw [if_neg short, readText, if_neg some_, part, Json.parseObject, broken]
      rfl

theorem readText_within (converts : Converts json) {ps old ps' : Properties} (filled : ps ≠ [])
    (distinct : (ps.map Prod.fst).Nodup) (returns : Returns json (toJSON ps))
    (cuts : CutsThrow json (toJSON ps)) (kind : old = ps ∨ old = [])
    (read : readText json old (cutText json ps) = some ps') {name : Str} {p : Property}
    (found : get ps' name = some p) : get ps name = some p := by
  rw [readText_cut filled returns cuts] at read
  split at read
  · cases read
    rcases kind with rfl | rfl
    · exact found
    · cases found
  · split at read
    · rw [toJSON_get converts distinct read] at found
      rcases kind with rfl | rfl
      · cases written : get old name with
        | none => simp [written] at found
        | some q => simpa [written] using found
      · rw [get_nil, Option.none_or] at found
        obtain ⟨v, kept, rfl⟩ := Option.map_eq_some_iff.mp found
        obtain ⟨q, written, kept⟩ := Option.bind_eq_some_iff.mp kept
        rw [written, (survivor_eq_some kept).1]
    · cases read

theorem readText_itself (converts : Converts json) {ps : Properties} (filled : ps ≠ [])
    (distinct : (ps.map Prod.fst).Nodup) (returns : Returns json (toJSON ps))
    (cuts : CutsThrow json (toJSON ps)) :
    (∃ ps', readText json ps (cutText json ps) = some ps' ∧ ∀ name, get ps' name = get ps name) ↔
      (json.stringify (toJSON ps)).length % 2 ^ 32 = 0 ∨
      (json.stringify (toJSON ps)).length < 2 ^ 32 ∧ ¬ ∃ p ∈ ps, NullScalar p.2 := by
  rw [readText_cut filled returns cuts, ← fromJSON_itself converts distinct]
  split
  · rename_i none_
    exact iff_of_true ⟨ps, rfl, fun _ => rfl⟩ (Or.inl none_)
  · rename_i some_
    split
    · rename_i short
      constructor
      · exact fun back => Or.inr ⟨short, back⟩
      · intro back
        exact (back.resolve_left some_).2
    · rename_i long
      constructor
      · rintro ⟨ps', read, -⟩
        cases read
      · rintro (none_ | ⟨short, -⟩)
        · exact absurd none_ some_
        · exact absurd short long

theorem readText_empty (converts : Converts json) {ps : Properties} (filled : ps ≠ [])
    (distinct : (ps.map Prod.fst).Nodup) (returns : Returns json (toJSON ps))
    (cuts : CutsThrow json (toJSON ps)) :
    (∃ ps', readText json [] (cutText json ps) = some ps' ∧ ∀ name, get ps' name = get ps name) ↔
      (json.stringify (toJSON ps)).length < 2 ^ 32 ∧ Stored ps := by
  have some_ : 0 < (json.stringify (toJSON ps)).length := List.length_pos_iff.mpr returns.2
  rw [readText_cut filled returns cuts, ← fromJSON_exact converts distinct]
  split
  · rename_i none_
    constructor
    · rintro ⟨ps', read, same⟩
      cases read
      obtain ⟨p, rest, rfl⟩ := List.exists_cons_of_ne_nil filled
      have first := same p.1
      rw [get_nil, get_cons, if_pos rfl] at first
      cases first
    · rintro ⟨short, -⟩
      rw [Nat.mod_eq_of_lt short] at none_
      omega
  · split
    · rename_i short
      exact (and_iff_right short).symm
    · rename_i long
      constructor
      · rintro ⟨ps', read, -⟩
        cases read
      · exact fun back => absurd back.1 long

end Decoding

section Received
variable {json : Json} {c : Content} {reason : Str}

/-- What four bytes can count and the documents do not lose, the properties apart. -/
structure Written (c : Content) : Prop where
  body : StoredBody c.body
  name : ShortName c.body
  strings : ShortStrings c.headers

/-- A consumer that takes `m` from the queue receives a faithful copy. -/
def ReceivesFaithful (json : Json) (c : Content) (reason : Str) (m : Content) : Prop :=
  ∃ r, rehydrate json m (storageBytes json (deadLetter c reason)) = some r ∧ Faithful c reason r

theorem receives_iff (converts : Converts json) (machine : Machine c)
    (returns : ∀ o ∈ documents (deadLetter c reason), Returns json o)
    (cuts : CutsThrow json (toJSON (deadLetter c reason).properties)) {m : Content}
    (persistent : m.reliability = .PERSISTENT)
    (kind : m.properties = (deadLetter c reason).properties ∧ m.body = c.body ∨
      m.properties = [] ∧ m.body = c.body.shell) :
    ReceivesFaithful json c reason m ↔ Unmarked c reason ∧ Written c ∧
      ∃ ps, readText json m.properties (cutText json (deadLetter c reason).properties) = some ps ∧
        ∀ name, get ps name = get (deadLetter c reason).properties name := by
  have machine' : Machine (deadLetter c reason) := copy_machine machine
  have head : Returns json (toJSON (deadLetter c reason).properties) :=
    returns _ List.mem_cons_self
  have tail : ∀ o ∈ bodyDocuments c.body, Returns json o := fun o member =>
    returns o (List.mem_cons_of_mem _ member)
  have bodies := readBody_iff converts (kind.imp And.right And.right) machine.bodyNames tail
  have bytes : rehydrate json m (storageBytes json (deadLetter c reason)) =
      fromBytes json m (toBytes json (deadLetter c reason)) := by
    rw [rehydrate, if_pos persistent, storageBytes, List.drop_succ_cons, List.drop_zero]
  constructor
  · rintro ⟨r, read, faithful⟩
    rw [bytes] at read
    have strings : ShortStrings c.headers := by
      have cut : r.headers = cutHeaders (deadLetter c reason).headers :=
        decoded_headers machine' read
      have same : cutHeaders (deadLetter c reason).headers = (deadLetter c reason).headers :=
        cut.symm.trans faithful.headers
      have short := cutHeaders_same same
      exact ⟨short.messageId, short.replyTo, short.correlationId, short.type⟩
    rw [fromBytes_cut m machine' ⟨strings.messageId, strings.replyTo, strings.correlationId,
      strings.type⟩] at read
    obtain ⟨ps, first, rest⟩ := Option.bind_eq_some_iff.mp read
    obtain ⟨b, second, rfl⟩ := Option.map_eq_some_iff.mp rest
    obtain ⟨stored, name⟩ := bodies.mp ⟨b, second, faithful.body⟩
    have known := readText_within converts copy_filled machine'.names head cuts
      (kind.imp And.left And.left) first faithful.reason
    have unmarked : Unmarked c reason := by
      intro p found
      rw [get_copy, if_pos rfl, found] at known
      exact Option.some.inj known
    refine ⟨unmarked, ⟨stored, name, strings⟩, ps, first, ?_⟩
    intro name
    by_cases here : name = deadLetterReason
    · subst here
      exact faithful.reason.trans known.symm
    · rw [get_copy, if_neg here]
      exact faithful.others name here
  · rintro ⟨unmarked, written, ps, first, properties⟩
    obtain ⟨b, second, body⟩ := bodies.mpr ⟨written.body, written.name⟩
    refine ⟨{ deadLetter c reason with properties := ps, body := b }, ?_, ?_⟩
    · rw [bytes, fromBytes_cut m machine' ⟨written.strings.messageId, written.strings.replyTo,
        written.strings.correlationId, written.strings.type⟩, first, Option.bind_some]
      show Option.map _ (readBody json m.body c.body) = _
      rw [second, Option.map_some]
    · have all := @faithful_iff c reason { deadLetter c reason with properties := ps, body := b }
        body rfl rfl rfl properties
      exact all.mpr unmarked

theorem receives_volatile (volatile : c.reliability = .NOT_PERSISTENT) :
    ReceivesFaithful json c reason (deadLetter c reason) ↔ Unmarked c reason := by
  have same : rehydrate json (deadLetter c reason) (storageBytes json (deadLetter c reason)) =
      some (deadLetter c reason) := by
    have differ : (deadLetter c reason).reliability ≠ .PERSISTENT := by
      show c.reliability ≠ .PERSISTENT
      rw [volatile]
      decide
    rw [rehydrate, if_neg differ]
  have body : SameBody c.body c.body := by
    cases c.body <;> first | rfl | exact fun _ => rfl
  unfold ReceivesFaithful
  rw [same, ← @faithful_iff c reason (deadLetter c reason) body rfl rfl rfl fun _ => rfl]
  constructor
  · rintro ⟨r, received, faithful⟩
    cases received
    exact faithful
  · exact fun faithful => ⟨_, rfl, faithful⟩

theorem receives_cached (converts : Converts json) (machine : Machine c)
    (returns : ∀ o ∈ documents (deadLetter c reason), Returns json o)
    (cuts : CutsThrow json (toJSON (deadLetter c reason).properties))
    (persistent : c.reliability = .PERSISTENT) :
    ReceivesFaithful json c reason (deadLetter c reason) ↔ Unmarked c reason ∧ Written c ∧
      (textLength json c reason % 2 ^ 32 = 0 ∨
        textLength json c reason < 2 ^ 32 ∧ ¬ ∃ p ∈ c.properties, NullScalar p.2) := by
  have stored : (deadLetter c reason).reliability = .PERSISTENT := persistent
  rw [receives_iff converts machine returns cuts stored (Or.inl ⟨rfl, rfl⟩),
    readText_itself converts copy_filled (copy_names machine.names)
      (returns _ List.mem_cons_self) cuts, copy_null]
  rfl

theorem receives_replayed (converts : Converts json) (machine : Machine c)
    (returns : ∀ o ∈ documents (deadLetter c reason), Returns json o)
    (cuts : CutsThrow json (toJSON (deadLetter c reason).properties)) {m : Content}
    (shell : Shell m (deadLetter c reason)) :
    ReceivesFaithful json c reason m ↔ Unmarked c reason ∧ Written c ∧
      textLength json c reason < 2 ^ 32 ∧ Stored c.properties := by
  rw [receives_iff converts machine returns cuts shell.reliability
    (Or.inr ⟨shell.properties, shell.body⟩), shell.properties,
    readText_empty converts copy_filled (copy_names machine.names)
      (returns _ List.mem_cons_self) cuts, copy_stored]
  rfl

end Received

section Broker

theorem acceptDeadLetter_queue (env : Env) (m : Message) {dlq : Destination}
    (made : dlq.queueMade = true) :
    ∃ x : Message, (acceptDeadLetter env m dlq).queues .shared =
        (dlq.queues .shared).enqueue x.band x ∧
      x.content = deadLetter m.content maxRedeliveriesExceeded ∧
      (m.content.reliability = .PERSISTENT → x.cachedStorageBytes = some x.content) := by
  let copy := deadLetterCopy m dlq.nextOid
  let counted : Destination := { dlq with nextOid := dlq.nextOid + 1 }
  unfold acceptDeadLetter
  by_cases persistent : copy.isPersistent = true
  · let filed := counted.appendRecord env .shared copy.uuid copy.content
    let stored : Message :=
      { copy with cachedStorageBytes := some copy.content, location := filed.2 }
    have there : filed.1.queueMade = true := made
    simp only [copy] at persistent
    simp only [persistent, if_true]
    refine ⟨stored, ?_, copy_properties m dlq.nextOid, fun _ => rfl⟩
    rw [if_pos there, enqueueOrSchedule_immediate _ _ _ rfl]
    simp only [Destination.enqueue, Destination.setQueue, Function.update_self]
    rfl
  · simp only [copy] at persistent
    simp only [persistent, Bool.false_eq_true, if_false]
    refine ⟨copy, ?_, copy_properties m dlq.nextOid, ?_⟩
    · rw [if_pos made, enqueueOrSchedule_immediate _ _ _ rfl]
      simp [Destination.enqueue, Destination.setQueue, copy]
    · intro stored
      have contrary : (deadLetterCopy m dlq.nextOid).isPersistent = true := decide_eq_true stored
      exact absurd contrary persistent

theorem acceptDeadLetter_store (env : Env) {m : Message} (dlq : Destination)
    (persistent : m.content.reliability = .PERSISTENT) :
    (acceptDeadLetter env m dlq).stores .shared =
      ((dlq.stores .shared).append m.uuid (deadLetter m.content maxRedeliveriesExceeded)
        (env.appendFails .shared (dlq.stores .shared).log.length)).1 := by
  have stored : (deadLetterCopy m dlq.nextOid).isPersistent = true := decide_eq_true persistent
  unfold acceptDeadLetter
  simp only [stored, if_true]
  split
  · rw [enqueueOrSchedule_stores]
    simp [Destination.appendRecord]
    rfl
  · simp [Destination.appendRecord]
    rfl

/- What a replay makes of the record is a shell of the copy with the bytes of the copy. -/
theorem shellOf_copy (env : Env) (oid location : Nat) (c : Content) (reason : Str) :
    Shell (shellOf env oid c.uuid (deadLetter c reason) location).content (deadLetter c reason) ∧
      (shellOf env oid c.uuid (deadLetter c reason) location).cachedStorageBytes =
        some (deadLetter c reason) := by
  have now : storedDeliveryTime env (deadLetter c reason) = 0 := ite_self 0
  refine ⟨⟨rfl, rfl, rfl⟩, ?_⟩
  simp only [shellOf, now]
  rfl

end Broker

/-- What the dead-letter queue delivers of a message: the copy that is not persistent as it lies
    there, the persistent one from its cached bytes or from the shell of a replay. It is
    faithful exactly when the message has no other reason already and, for a persistent one,
    all of it can be counted and comes back from its documents. The queue gets that copy and the
    storage its bytes. -/
theorem dead_letter_copy (json : Json) (converts : Converts json) :
    (∀ (c : Content) (reason : Str), Machine c →
      (∀ o ∈ documents (deadLetter c reason), Returns json o) →
      CutsThrow json (toJSON (deadLetter c reason).properties) →
      (c.reliability = .NOT_PERSISTENT →
        (ReceivesFaithful json c reason (deadLetter c reason) ↔ Unmarked c reason)) ∧
      (c.reliability = .PERSISTENT →
        (ReceivesFaithful json c reason (deadLetter c reason) ↔
          Unmarked c reason ∧ Written c ∧
          (textLength json c reason % 2 ^ 32 = 0 ∨
            textLength json c reason < 2 ^ 32 ∧ ¬ ∃ p ∈ c.properties, NullScalar p.2)) ∧
        ∀ m, Shell m (deadLetter c reason) →
          (ReceivesFaithful json c reason m ↔ Unmarked c reason ∧ Written c ∧
            textLength json c reason < 2 ^ 32 ∧ Stored c.properties))) ∧
    ∀ (env : Env) (m : Message) (dlq : Destination),
      (dlq.queueMade = true → ∃ x : Message,
        (acceptDeadLetter env m dlq).queues .shared = (dlq.queues .shared).enqueue x.band x ∧
        x.content = deadLetter m.content maxRedeliveriesExceeded ∧
        (m.content.reliability = .PERSISTENT → x.cachedStorageBytes = some x.content)) ∧
      (m.content.reliability = .PERSISTENT →
        (acceptDeadLetter env m dlq).stores .shared =
          ((dlq.stores .shared).append m.uuid (deadLetter m.content maxRedeliveriesExceeded)
            (env.appendFails .shared (dlq.stores .shared).log.length)).1 ∧
        ∀ (later : Env) (oid location : Nat),
          Shell (shellOf later oid m.uuid (deadLetter m.content maxRedeliveriesExceeded)
            location).content (deadLetter m.content maxRedeliveriesExceeded) ∧
          (shellOf later oid m.uuid (deadLetter m.content maxRedeliveriesExceeded)
            location).cachedStorageBytes =
              some (deadLetter m.content maxRedeliveriesExceeded)) := by
  constructor
  · intro c reason machine returns cuts
    constructor
    · exact receives_volatile
    · intro persistent
      constructor
      · exact receives_cached converts machine returns cuts persistent
      · exact fun m shell => receives_replayed converts machine returns cuts shell
  · intro env m dlq
    constructor
    · exact acceptDeadLetter_queue env m
    · intro persistent
      constructor
      · exact acceptDeadLetter_store env dlq persistent
      · intro later oid location
        exact shellOf_copy later oid location m.content maxRedeliveriesExceeded

/-- `{"JMSXDeadLetterReason":{"type":"STRING","value":"maxRedeliveries exceeded"}}` -/
def reasonText : Bytes :=
  str ['{','"'] ++ deadLetterReason ++ str ['"',':','{','"','t','y','p','e','"',':','"','S','T',
    'R','I','N','G','"',',','"','v','a','l','u','e','"',':','"'] ++ maxRedeliveriesExceeded ++
    str ['"','}','}']

def poison : Content :=
  { number := 7, uuid := 1, reliability := .PERSISTENT,
    headers := {
      messageId := str ['I','D'], timestamp := 1700000000123, deliveryCount := 7,
      redelivered := true },
    body := .text (str ['h','i']) }

def reasonJson : Json where
  stringify _ := reasonText
  parse bytes := if bytes = reasonText then
      some (.object (toJSON (deadLetter poison maxRedeliveriesExceeded).properties))
    else none
  convert type v := if getValueType v = type then some v else none

theorem poison_faithful :
    ReceivesFaithful reasonJson poison maxRedeliveriesExceeded
      (deadLetter poison maxRedeliveriesExceeded) ∧
    ReceivesFaithful reasonJson poison maxRedeliveriesExceeded
      (shellOf calm 3 1 (deadLetter poison maxRedeliveriesExceeded) 0).content := by
  have machine : Machine poison :=
    ⟨by unfold Fits; decide, ⟨by unfold Fits; decide, by unfold Fits; decide,
      by unfold Fits; decide, by unfold Fits; decide, by unfold Fits; decide⟩, by decide, trivial⟩
  have returns : ∀ o ∈ documents (deadLetter poison maxRedeliveriesExceeded),
      Returns reasonJson o := by
    intro o member
    rw [List.mem_singleton.mp member]
    exact ⟨by simp [reasonJson], by decide⟩
  have cuts : CutsThrow reasonJson
      (toJSON (deadLetter poison maxRedeliveriesExceeded).properties) := by
    intro n some_ fewer
    have differ : reasonText.take n ≠ reasonText := by
      intro same
      have size := congrArg List.length same
      rw [List.length_take] at size
      have whole : n < reasonText.length := fewer
      omega
    exact if_neg differ
  have all := ((dead_letter_copy reasonJson fun v => if_pos rfl).1 poison maxRedeliveriesExceeded
    machine returns cuts).2 rfl
  have unmarked : Unmarked poison maxRedeliveriesExceeded := by
    intro p found
    cases found
  have written : Written poison := ⟨trivial, trivial, by decide, by decide, by decide, by decide⟩
  have short : textLength reasonJson poison maxRedeliveriesExceeded < 2 ^ 32 := by decide
  constructor
  · refine all.1.mpr ⟨unmarked, written, Or.inr ⟨short, ?_⟩⟩
    rintro ⟨p, member, -⟩
    cases member
  · refine (all.2 _ (shellOf_copy calm 3 0 poison maxRedeliveriesExceeded).1).mpr
      ⟨unmarked, written, short, ?_⟩
    intro p member
    cases member

def marked : Content :=
  { properties := [(deadLetterReason, .value (.string (str ['x'])))], body := .text [] }

/- The reason is set with `emplace`: one that is there already stays. -/
theorem other_reason_stays :
    ¬ ∀ (json : Json) (c : Content) (reason : Str), Converts json → Machine c →
      (∀ o ∈ documents (deadLetter c reason), Returns json o) →
      CutsThrow json (toJSON (deadLetter c reason).properties) →
      ReceivesFaithful json c reason (deadLetter c reason) := by
  intro claimed
  let json : Json :=
    { stringify := fun _ => str ['{']
      parse := fun _ => some (.object (toJSON marked.properties))
      convert := fun _ v => some v }
  have machine : Machine marked :=
    ⟨by unfold Fits; decide, ⟨by unfold Fits; decide, by unfold Fits; decide,
      by unfold Fits; decide, by unfold Fits; decide, by unfold Fits; decide⟩, by decide, trivial⟩
  have returns : ∀ o ∈ documents (deadLetter marked maxRedeliveriesExceeded), Returns json o := by
    intro o member
    rw [List.mem_singleton.mp member]
    exact ⟨rfl, by decide⟩
  have cuts : CutsThrow json (toJSON (deadLetter marked maxRedeliveriesExceeded).properties) := by
    intro n some_ fewer
    have one : n < 1 := fewer
    omega
  obtain ⟨r, received, faithful⟩ := claimed json marked maxRedeliveriesExceeded (fun v => rfl)
    machine returns cuts
  cases received
  exact absurd faithful.reason (by decide)

end TinyMqDeadLetterCopies
