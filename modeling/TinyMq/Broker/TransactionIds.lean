import TinyMq.Broker.SessionRuns

/-!
`Session::transactionId()` against the session's mode. A producer has a queue for
staged messages when its session is transacted, and `Consumer::push` stages a
message when the transaction id is not empty.
-/
namespace TinyMqTransactionIds
open DelimitedText AssocLists TinyMqTom TinyMqMessage TinyMqStore TinyMqDestination TinyMqSession
open TinyMqFrames TinyMqSessionRuns Machines

def Agrees (s : Session) : Prop := s.suffix ≠ [] ↔ s.mode = .SESSION_TRANSACTED

/-- Between the calls every session has a transaction id exactly when it is transacted. -/
def Agree (r : Run) : Prop := ∀ sid s, r.world.sessions sid = some s → Agrees s

/-- Commits and rollbacks come to their end in transacted sessions only, and are left by an
    exception in others only. -/
def Orderly (r : Run) : Act → Prop
  | .commit _ sid _ | .rollback _ sid _ =>
    ∀ s, r.world.sessions sid = some s → s.mode = .SESSION_TRANSACTED
  | .commitThrows _ sid done _ | .rollbackThrows _ sid done _ =>
    ∀ s, r.world.sessions sid = some s → done < (participants s).length →
      s.mode ≠ .SESSION_TRANSACTED
  | _ => True

def Steadfast (w w' : World) : Prop :=
  ∀ sid s', w'.sessions sid = some s' →
    ∃ s, w.sessions sid = some s ∧ s'.mode = s.mode ∧ s'.suffix = s.suffix

theorem steadfast_same {w w' : World} (same : w'.sessions = w.sessions) : Steadfast w w' := by
  intro sid s' there
  rw [same] at there
  exact ⟨s', there, rfl, rfl⟩

theorem steadfast_set {w w' : World} {sid : Nat} {s s' : Session} (same : w'.sessions = w.sessions)
    (found : w.sessions sid = some s) (mode : s'.mode = s.mode) (suffix : s'.suffix = s.suffix) :
    Steadfast w (w'.setSession sid s') := by
  intro i t there
  rcases setSession_cases there with ⟨rfl, rfl⟩ | ⟨_, before⟩
  · exact ⟨s, found, mode, suffix⟩
  · rw [same] at before
    exact ⟨t, before, rfl, rfl⟩

theorem createDestination_steadfast (w : World) (sid did : Nat) (type : DestinationType)
    (cid : Nat) : Steadfast w (w.createDestination sid did type cid) := by
  unfold World.createDestination
  split <;> exact steadfast_same rfl

theorem createConsumer_steadfast (env : Env) (w : World) (sid did cid : Nat)
    (selector : Option Selector) : Steadfast w (w.createConsumer env sid did cid selector) := by
  unfold World.createConsumer
  split
  · next s d found here => exact steadfast_set (onDestination_sessions _ _ _) found rfl rfl
  · exact steadfast_same rfl

theorem createDurableConsumer_steadfast (env : Env) (w : World) (sid did cid : Nat)
    (clientID name : Text) (selector : Option Selector) :
    Steadfast w (World.createDurableConsumer env w sid did cid clientID name selector) := by
  unfold World.createDurableConsumer
  split
  · next s d found here =>
    dsimp only
    split
    · exact steadfast_same rfl
    · exact steadfast_set (onDestination_sessions _ _ _) found rfl rfl
  · exact steadfast_same rfl

theorem deleteConsumer_steadfast (w : World) (sid cid : Nat) :
    Steadfast w (w.deleteConsumer sid cid) := by
  unfold World.deleteConsumer
  split
  · exact steadfast_same rfl
  · next s found =>
    split
    · exact steadfast_same rfl
    · exact steadfast_set (onDestination_sessions _ _ _) found rfl rfl

theorem createProducer_steadfast (w : World) (sid did pid : Nat) :
    Steadfast w (w.createProducer sid did pid) := by
  unfold World.createProducer
  split
  · next s d found here => exact steadfast_set (onDestination_sessions _ _ _) found rfl rfl
  · exact steadfast_same rfl

theorem deleteProducer_steadfast (env : Env) (w : World) (sid pid : Nat) :
    Steadfast w (w.deleteProducer env sid pid) := by
  unfold World.deleteProducer
  split
  · exact steadfast_same rfl
  · next s found =>
    split
    · exact steadfast_same rfl
    · exact steadfast_set (onDestination_sessions _ _ _) found rfl rfl

theorem closeSession_steadfast (env : Env) (w : World) (sid : Nat) (t : Text) :
    Steadfast w (w.closeSession env sid t) := by
  unfold World.closeSession
  split
  · exact steadfast_same rfl
  · next s found =>
    intro i s' there
    dsimp only at there
    have other : i ≠ sid := by
      intro same
      simp [same] at there
    rw [Function.update_of_ne other, sessions_fold (fun w p => onDestination_sessions _ _ _),
      sessions_fold (fun w c => onDestination_sessions _ _ _),
      rollback_participants env w sid true t found, setSession_other _ _ other,
      (alike_fold (rollbackPart_alike env true s.suffix) _ _).sessions] at there
    exact ⟨s', there, rfl, rfl⟩

theorem Agree.steadfast {r : Run} (agree : Agree r) {w : World} (steadfast : Steadfast r.world w) :
    ∀ sid s, w.sessions sid = some s → Agrees s := by
  intro sid s' there
  obtain ⟨s, found, mode, suffix⟩ := steadfast sid s' there
  unfold Agrees
  rw [mode, suffix]
  exact agree sid s found

theorem agree_set_iff {r : Run} (agree : Agree r) {w : World} (same : w.sessions = r.world.sessions)
    (sid : Nat) (s : Session) :
    (∀ i t, (w.setSession sid s).sessions i = some t → Agrees t) ↔ Agrees s := by
  constructor
  · intro all
    exact all sid s (setSession_same _ _ _)
  · intro here i t there
    rcases setSession_cases there with ⟨_, rfl⟩ | ⟨_, before⟩
    · exact here
    · rw [same] at before
      exact agree i t before

theorem throws_agree_iff {r : Run} (agree : Agree r) (sid done : Nat) (left : Interrupted)
    {part : Text → World → (Nat × Nat) ⊕ (Nat × Nat) → World}
    (alike : ∀ t w p, Alike w (part t w p)) :
    Agree (r.to (World.throws r.world sid part done left)) ↔
      ∀ s, r.world.sessions sid = some s → done < (participants s).length →
        s.mode ≠ .SESSION_TRANSACTED := by
  unfold World.throws Run.to Agree
  dsimp only
  cases found : r.world.sessions sid with
  | none => simpa [Agree] using agree
  | some s =>
    dsimp only
    cases thrower : (participants s)[done]? with
    | none =>
      have beyond := List.getElem?_eq_none_iff.mp thrower
      constructor
      · intro _ t same low
        cases same
        omega
      · intro _
        exact agree
    | some p =>
      obtain ⟨low, -⟩ := List.getElem?_eq_some_iff.mp thrower
      dsimp only
      rw [agree_set_iff agree]
      · simp [Agrees, low]
      · rw [onDestination_sessions]
        exact (alike_fold (alike s.suffix) _ _).sessions

theorem next_agree_iff (r : Run) (a : Act) (agree : Agree r) : Agree (r.next a) ↔ Orderly r a := by
  cases a with
  | createSession mode id =>
    simp only [Orderly, iff_true]
    have fresh := (agree_set_iff agree (w := r.world) rfl r.nextId
      { mode := mode, suffix := if mode = .SESSION_TRANSACTED then id.1 else [] }).mpr
    refine fresh ?_
    have some := id.2
    by_cases transacted : mode = .SESSION_TRANSACTED <;> simp [Agrees, transacted, some]
  | commit env sid id =>
    unfold Agree Run.next Run.to Orderly
    dsimp only
    cases found : r.world.sessions sid with
    | none => simpa [World.commit, found, Agree] using agree
    | some s =>
      rw [commit_participants env r.world sid id.1 found, agree_set_iff agree]
      · simp [Agrees, id.2]
      · exact (alike_fold (commitPart_alike env s.suffix) _ _).sessions
  | rollback env sid id =>
    unfold Agree Run.next Run.to Orderly
    dsimp only
    cases found : r.world.sessions sid with
    | none => simpa [World.rollback, found, Agree] using agree
    | some s =>
      rw [rollback_participants env r.world sid false id.1 found, agree_set_iff agree]
      · simp [Agrees, id.2]
      · exact (alike_fold (rollbackPart_alike env false s.suffix) _ _).sessions
  | commitThrows env sid done left =>
    exact throws_agree_iff agree sid done left fun t w p => commitPart_alike env t w p
  | rollbackThrows env sid done left =>
    exact throws_agree_iff agree sid done left fun t w p => rollbackPart_alike env false t w p
  | createDestination sid did type =>
    exact iff_of_true (agree.steadfast (createDestination_steadfast _ _ _ _ _)) trivial
  | createConsumer env sid did selector =>
    exact iff_of_true (agree.steadfast (createConsumer_steadfast _ _ _ _ _ _)) trivial
  | createDurableConsumer env sid did clientID name selector =>
    exact iff_of_true (agree.steadfast (createDurableConsumer_steadfast _ _ _ _ _ _ _ _)) trivial
  | deleteConsumer sid cid =>
    exact iff_of_true (agree.steadfast (deleteConsumer_steadfast _ _ _)) trivial
  | unsubscribe did clientID name =>
    exact iff_of_true (agree.steadfast (steadfast_same (onDestination_sessions _ _ _))) trivial
  | createProducer sid did =>
    exact iff_of_true (agree.steadfast (createProducer_steadfast _ _ _ _)) trivial
  | deleteProducer env sid pid =>
    exact iff_of_true (agree.steadfast (deleteProducer_steadfast _ _ _ _)) trivial
  | send env sid pid m =>
    exact iff_of_true (agree.steadfast (steadfast_same (send_alike _ _ _ _ _).sessions)) trivial
  | sendWith env sid pid m opts =>
    exact iff_of_true (agree.steadfast (steadfast_same (sendWith_alike _ _ _ _ _ _).sessions)) trivial
  | recover env sid =>
    exact iff_of_true (agree.steadfast (steadfast_same (recover_alike _ _ _).sessions)) trivial
  | closeSession env sid id =>
    exact iff_of_true (agree.steadfast (closeSession_steadfast _ _ _ _)) trivial

def Held (d d' : Destination) : Prop := d'.queues = d.queues ∧ d'.pending = d.pending

theorem push_held {env : Env} {number : Int} {pid : Nat} {t : Text} {m : Message} (open_ : t ≠ [])
    (d : Destination) (cid : Nat) : Held d (Destination.push env number pid t m d cid) := by
  unfold Destination.push
  cases get d.objects cid with
  | none => exact ⟨rfl, rfl⟩
  | some c =>
    dsimp only
    split
    · have prepared : Held d (d.preparePush env cid c number t m).1 := by
        unfold Destination.preparePush
        dsimp only
        split <;> exact ⟨rfl, rfl⟩
      unfold Destination.stage
      split <;> exact prepared
    · exact ⟨rfl, rfl⟩

theorem save_held {env : Env} {pid : Nat} {t : Text} {m : Message} (open_ : t ≠ [])
    (d : Destination) : Held d (d.save env pid t m) := by
  have pushed : ∀ (l : List Nat) (e : Destination),
      Held e (l.foldl (Destination.push env d.messageCounter pid t m) e) := by
    intro l
    induction l with
    | nil => exact fun e => ⟨rfl, rfl⟩
    | cons cid l ih =>
      intro e
      have first : Held e (Destination.push env d.messageCounter pid t m e cid) := push_held open_ e cid
      have rest := ih (Destination.push env d.messageCounter pid t m e cid)
      exact ⟨rest.1.trans first.1, rest.2.trans first.2⟩
  unfold Destination.save
  dsimp only
  rw [if_neg (by simp [open_])]
  exact pushed _ _

/-- The producer that sends has a queue to stage into when the message is staged, and what a
    transacted session sends is not delivered by the call. -/
def PushSafe (r : Run) : Act → Prop
  | .send env sid pid m => ∀ s did d p, r.world.sessions sid = some s →
      get s.producers pid = some did → r.world.destinations did = some d →
      get d.producers pid = some p →
        (s.suffix ≠ [] → p.mode = .SESSION_TRANSACTED) ∧
        (s.mode = .SESSION_TRANSACTED → Held d (d.send env pid s.suffix m).1)
  | .sendWith env sid pid m opts => ∀ s did d p, r.world.sessions sid = some s →
      get s.producers pid = some did → r.world.destinations did = some d →
      get d.producers pid = some p →
        (s.suffix ≠ [] → p.mode = .SESSION_TRANSACTED) ∧
        (s.mode = .SESSION_TRANSACTED → Held d (d.sendWith env pid s.suffix m opts).1)
  | _ => True

/-- A producer works in the mode of its session. -/
structure Paired (r : Run) : Prop where
  named : ∀ sid s, r.world.sessions sid = some s → sid < r.nextId ∧
    ∀ pid did, get s.producers pid = some did → pid < r.nextId
  made : ∀ did d pid p, r.world.destinations did = some d → get d.producers pid = some p →
    pid < r.nextId
  modes : ∀ sid s pid did d p, r.world.sessions sid = some s → get s.producers pid = some did →
    r.world.destinations did = some d → get d.producers pid = some p → p.mode = s.mode

theorem Paired.pushSafe {r : Run} (paired : Paired r) (agree : Agree r) (a : Act) :
    PushSafe r a := by
  cases a with
  | send env sid pid m =>
    intro s did d p found mine here there
    have same := paired.modes sid s pid did d p found mine here there
    have agrees := agree sid s found
    refine ⟨fun open_ => same.trans (agrees.mp open_), ?_⟩
    intro transacted
    unfold Destination.send
    rw [there]
    exact save_held (agrees.mpr transacted) d
  | sendWith env sid pid m opts =>
    intro s did d p found mine here there
    have same := paired.modes sid s pid did d p found mine here there
    have agrees := agree sid s found
    refine ⟨fun open_ => same.trans (agrees.mp open_), ?_⟩
    intro transacted
    unfold Destination.sendWith
    rw [there]
    dsimp only
    split
    · exact ⟨rfl, rfl⟩
    · exact save_held (agrees.mpr transacted) d
  | _ => exact trivial

structure Fewer (w w' : World) : Prop where
  sessions : ∀ sid s', w'.sessions sid = some s' → ∃ s, w.sessions sid = some s ∧
    s'.mode = s.mode ∧ ∀ pid did, get s'.producers pid = some did → get s.producers pid = some did
  producers : ∀ did d' pid p', w'.destinations did = some d' → get d'.producers pid = some p' →
    ∃ d p, w.destinations did = some d ∧ get d.producers pid = some p ∧ p'.mode = p.mode

theorem Paired.fewer {r r' : Run} (paired : Paired r) (later : r.nextId ≤ r'.nextId)
    (fewer : Fewer r.world r'.world) : Paired r' where
  named sid s' there := by
    obtain ⟨s, found, -, old⟩ := fewer.sessions sid s' there
    obtain ⟨low, mine⟩ := paired.named sid s found
    refine ⟨by omega, ?_⟩
    intro pid did member
    have := mine pid did (old pid did member)
    omega
  made did d' pid p' there member := by
    obtain ⟨d, p, here, found, -⟩ := fewer.producers did d' pid p' there member
    have := paired.made did d pid p here found
    omega
  modes sid s' pid did d' p' there mine here member := by
    obtain ⟨s, found, mode, old⟩ := fewer.sessions sid s' there
    obtain ⟨d, p, before, producer, same⟩ := fewer.producers did d' pid p' here member
    rw [same, mode]
    exact paired.modes sid s pid did d p found (old pid did mine) before producer

theorem Fewer.refl (w : World) : Fewer w w where
  sessions _ s there := ⟨s, there, rfl, fun _ _ => id⟩
  producers _ d _ p there member := ⟨d, p, there, member, rfl⟩

theorem Fewer.trans {w w' w'' : World} (one : Fewer w w') (two : Fewer w' w'') : Fewer w w'' where
  sessions sid s'' there := by
    obtain ⟨s', found', mode', old'⟩ := two.sessions sid s'' there
    obtain ⟨s, found, mode, old⟩ := one.sessions sid s' found'
    exact ⟨s, found, mode'.trans mode, fun pid did mine => old pid did (old' pid did mine)⟩
  producers did d'' pid p'' there member := by
    obtain ⟨d', p', here', found', same'⟩ := two.producers did d'' pid p'' there member
    obtain ⟨d, p, here, found, same⟩ := one.producers did d' pid p' here' found'
    exact ⟨d, p, here, found, same'.trans same⟩

theorem fewer_fold {ι : Type} {g : World → ι → World} (one : ∀ w i, Fewer w (g w i)) (l : List ι)
    (w : World) : Fewer w (l.foldl g w) := by
  induction l generalizing w with
  | nil => exact Fewer.refl w
  | cons i l ih => exact (one w i).trans (ih (g w i))

theorem Kin.fewer {d d' : Destination} (kin : Kin d d') {pid : Nat} {p' : Producer}
    (member : get d'.producers pid = some p') :
    ∃ p, get d.producers pid = some p ∧ p'.mode = p.mode := by
  have same := kin.modes pid
  rw [member, Option.map_some] at same
  obtain ⟨p, found, equal⟩ := Option.map_eq_some_iff.mp same.symm
  exact ⟨p, found, equal.symm⟩

theorem Alike.fewer {w w' : World} (alike : Alike w w') : Fewer w w' where
  sessions sid s there := by
    rw [alike.sessions] at there
    exact ⟨s, there, rfl, fun _ _ => id⟩
  producers did d' pid p' there member := by
    obtain ⟨d, here, kin⟩ := alike.before there
    obtain ⟨p, found, same⟩ := Kin.fewer kin member
    exact ⟨d, p, here, found, same⟩

theorem fewer_on (w : World) (did : Nat) {f : Destination → Destination}
    (modes : ∀ d pid p', get (f d).producers pid = some p' →
      ∃ p, get d.producers pid = some p ∧ p'.mode = p.mode) : Fewer w (w.onDestination did f) where
  sessions sid s there := by
    rw [onDestination_sessions] at there
    exact ⟨s, there, rfl, fun _ _ => id⟩
  producers i d' pid p' there member := by
    rcases onDestination_cases there with ⟨d, -, here, rfl⟩ | ⟨_, here⟩
    · obtain ⟨p, found, equal⟩ := modes d pid p' member
      exact ⟨d, p, here, found, equal⟩
    · exact ⟨d', p', here, member, rfl⟩

theorem fewer_set {w w' : World} (fewer : Fewer w w') {sid : Nat} {s s' : Session}
    (found : w.sessions sid = some s) (mode : s'.mode = s.mode)
    (mine : ∀ pid did, get s'.producers pid = some did → get s.producers pid = some did) :
    Fewer w (w'.setSession sid s') where
  sessions i t there := by
    rcases setSession_cases there with ⟨rfl, rfl⟩ | ⟨_, before⟩
    · exact ⟨s, found, mode, mine⟩
    · exact fewer.sessions i t before
  producers := fewer.producers

theorem createDestination_fewer (w : World) (sid did : Nat) (type : DestinationType) (cid : Nat) :
    Fewer w (w.createDestination sid did type cid) := by
  unfold World.createDestination
  cases w.sessions sid with
  | none => exact Fewer.refl w
  | some s =>
    refine ⟨fun i t there => ⟨t, there, rfl, fun _ _ => id⟩, ?_⟩
    intro i d' pid p' there member
    dsimp only at there
    by_cases same : i = did
    · subst same
      rw [Function.update_self] at there
      cases there
      have old : get ((w.destinations i).getD { type := type }).producers pid = some p' := by
        unfold Destination.createDefaultConsumer at member
        split at member <;> exact member
      cases here : w.destinations i with
      | none => simp [here] at old
      | some d =>
        rw [here] at old
        exact ⟨d, p', rfl, old, rfl⟩
    · rw [Function.update_of_ne same] at there
      exact ⟨d', p', there, member, rfl⟩

theorem createConsumer_fewer (env : Env) (w : World) (sid did cid : Nat)
    (selector : Option Selector) : Fewer w (w.createConsumer env sid did cid selector) := by
  unfold World.createConsumer
  split
  · next s e found here =>
    refine fewer_set (fewer_on w did ?_) found rfl fun _ _ => id
    intro d pid p' member
    have dropped : ∀ e : Destination, e.dropDefault.producers = e.producers := by
      intro e
      unfold Destination.dropDefault
      split <;> rfl
    unfold Destination.createConsumer at member
    split at member
    · dsimp only at member
      split at member
      · obtain ⟨p, old, same⟩ := Kin.fewer (replayFromStorage_kin env _ .shared .shared) member
        refine ⟨p, ?_, same⟩
        rw [← dropped d]
        exact old
      · refine ⟨p', ?_, rfl⟩
        rw [← dropped d]
        exact member
    · exact ⟨p', member, rfl⟩
  · exact Fewer.refl w

theorem attachDurable_fewer (env : Env) (d : Destination) (id : Nat) (mode : AcknowledgeMode)
    (key : Text) (sub : DurableSubState) (selector : Option Selector) {pid : Nat} {p' : Producer}
    (member : get (d.attachDurable env id mode key sub selector).producers pid = some p') :
    ∃ p, get d.producers pid = some p ∧ p'.mode = p.mode :=
  Kin.fewer (replayFromStorage_kin env
    (d.setObject id ⟨mode,.own id,sub.storage,selector,[],.empty,[]⟩) (.own id) sub.storage) member

theorem createDurableConsumer_fewer (env : Env) (w : World) (sid did cid : Nat)
    (clientID name : Text) (selector : Option Selector) :
    Fewer w (World.createDurableConsumer env w sid did cid clientID name selector) := by
  unfold World.createDurableConsumer
  split
  · next s e found here =>
    dsimp only
    split
    · exact Fewer.refl w
    · refine fewer_set (fewer_on w did ?_) found rfl fun _ _ => id
      intro d pid p' member
      unfold Destination.createDurableConsumer at member
      split at member
      · exact ⟨p', member, rfl⟩
      · dsimp only at member
        split at member
        · exact attachDurable_fewer _ _ _ _ _ _ _ member
        · split at member
          · exact ⟨p', member, rfl⟩
          · exact attachDurable_fewer _ _ _ _ _ _ _ member
  · exact Fewer.refl w

theorem deleteConsumer_producers (d : Destination) (cid : Nat) :
    (d.deleteConsumer cid).producers = d.producers := by
  unfold Destination.deleteConsumer
  dsimp only
  split <;> rfl

theorem deleteConsumer_fewer (w : World) (sid cid : Nat) : Fewer w (w.deleteConsumer sid cid) := by
  unfold World.deleteConsumer
  split
  · exact Fewer.refl w
  · next s found =>
    split
    · exact Fewer.refl w
    · refine fewer_set (fewer_on w _ ?_) found rfl fun _ _ => id
      intro d pid p' member
      rw [deleteConsumer_producers] at member
      exact ⟨p', member, rfl⟩

theorem unsubscribe_fewer (w : World) (did : Nat) (clientID name : Text) :
    Fewer w (World.unsubscribe w did clientID name) := by
  refine fewer_on w did ?_
  intro d pid p' member
  refine ⟨p', ?_, rfl⟩
  unfold Destination.deleteSubscription at member
  dsimp only at member
  split at member
  · exact member
  · split at member
    · exact member
    · rw [← deleteConsumer_producers d]
      exact member

theorem deleteProducer_modes (env : Env) (d : Destination) (pid : Nat) (t : Text) (i : Nat)
    (p' : Producer) (member : get (d.deleteProducer env pid t).producers i = some p') :
    ∃ p, get d.producers i = some p ∧ p'.mode = p.mode := by
  unfold Destination.deleteProducer at member
  dsimp only at member
  have other : i ≠ pid := by
    intro same
    simp [same] at member
  rw [get_erase_other _ other] at member
  exact Kin.fewer (rollbackProducer_kin env d pid t) member

theorem get_erase_old {α : Type} {m : Assoc Nat α} {k l : Nat} {a : α}
    (found : get (erase m k) l = some a) : get m l = some a := by
  by_cases same : l = k
  · subst same
    simp at found
  · rwa [get_erase_other m same] at found

theorem deleteProducer_fewer (env : Env) (w : World) (sid pid : Nat) :
    Fewer w (w.deleteProducer env sid pid) := by
  unfold World.deleteProducer
  split
  · exact Fewer.refl w
  · next s found =>
    split
    · exact Fewer.refl w
    · exact fewer_set (fewer_on w _ fun d => deleteProducer_modes env d pid s.suffix) found rfl
        fun i did mine => get_erase_old mine

theorem closeSession_fewer (env : Env) (w : World) (sid : Nat) (t : Text) :
    Fewer w (w.closeSession env sid t) := by
  unfold World.closeSession
  split
  · exact Fewer.refl w
  · next s found =>
    have undone : Fewer w (w.rollback env sid true t) := by
      rw [rollback_participants env w sid true t found]
      exact fewer_set (Alike.fewer (alike_fold (rollbackPart_alike env true s.suffix) _ _)) found rfl
        fun _ _ => id
    have consumers := fewer_fold (g := fun (w : World) (c : Nat × Nat) =>
      w.onDestination c.2 fun d => d.deleteConsumer c.1) (fun w c => fewer_on w c.2 fun d pid p' member =>
        ⟨p', by rwa [deleteConsumer_producers] at member, rfl⟩) s.consumers
    have producers := fewer_fold (g := fun (w : World) (p : Nat × Nat) =>
      w.onDestination p.2 fun d => d.deleteProducer env p.1 t)
        (fun w p => fewer_on w p.2 fun d => deleteProducer_modes env d p.1 t) s.producers
    have all := (undone.trans (consumers _)).trans (producers _)
    refine ⟨?_, all.producers⟩
    intro i s' there
    dsimp only at there
    have other : i ≠ sid := by
      intro same
      simp [same] at there
    rw [Function.update_of_ne other] at there
    exact all.sessions i s' there

theorem Paired.createSession {r : Run} (paired : Paired r) (mode : AcknowledgeMode) (suffix : Text) :
    Paired { r with world := r.world.createSession r.nextId mode suffix, nextId := r.nextId + 1 } := by
  have old : ∀ sid s, (r.world.createSession r.nextId mode suffix).sessions sid = some s →
      sid = r.nextId ∧ s.producers = [] ∨ r.world.sessions sid = some s := by
    intro sid s there
    unfold World.createSession at there
    rcases setSession_cases there with ⟨same, rfl⟩ | ⟨_, before⟩
    · exact .inl ⟨same, rfl⟩
    · exact .inr before
  refine ⟨?_, ?_, ?_⟩
  · intro sid s there
    dsimp only
    rcases old sid s there with ⟨same, none⟩ | before
    · refine ⟨by omega, ?_⟩
      intro pid did mine
      simp [none] at mine
    · obtain ⟨low, pids⟩ := paired.named sid s before
      refine ⟨by omega, ?_⟩
      intro pid did mine
      have := pids pid did mine
      omega
  · intro did d pid p here member
    have := paired.made did d pid p here member
    dsimp only
    omega
  · intro sid s pid did d p there mine here member
    rcases old sid s there with ⟨same, none⟩ | before
    · simp [none] at mine
    · exact paired.modes sid s pid did d p before mine here member

theorem Paired.createProducer {r : Run} (paired : Paired r) (sid did : Nat) :
    Paired { r with world := r.world.createProducer sid did r.nextId, nextId := r.nextId + 1 } := by
  unfold World.createProducer
  split
  next s _ found _ =>
    have destinations : ∀ i d', (r.world.onDestination did fun d =>
        d.createProducer r.nextId s.mode).destinations i = some d' →
        ∃ d, r.world.destinations i = some d ∧ ∀ pid p, get d'.producers pid = some p →
          pid = r.nextId ∧ p.mode = s.mode ∨ get d.producers pid = some p := by
      intro i d' here
      rcases onDestination_cases here with ⟨d, -, before, rfl⟩ | ⟨_, before⟩
      · refine ⟨d, before, ?_⟩
        intro pid p member
        unfold Destination.createProducer at member
        dsimp only at member
        by_cases new : pid = r.nextId
        · rw [new, get_put_same] at member
          cases member
          exact .inl ⟨new, rfl⟩
        · rw [get_put_other _ _ new] at member
          exact .inr member
      · exact ⟨d', before, fun pid p member => .inr member⟩
    have sessions : ∀ i t, ((r.world.onDestination did fun d =>
        d.createProducer r.nextId s.mode).setSession sid
          { s with producers := put s.producers r.nextId did }).sessions i = some t →
        ∃ old, r.world.sessions i = some old ∧ t.mode = old.mode ∧
          ∀ pid at_, get t.producers pid = some at_ →
            pid = r.nextId ∧ i = sid ∧ old = s ∨ get old.producers pid = some at_ := by
      intro i t here
      rcases setSession_cases here with ⟨rfl, rfl⟩ | ⟨_, before⟩
      · refine ⟨s, found, rfl, ?_⟩
        intro pid at_ mine
        dsimp only at mine
        by_cases new : pid = r.nextId
        · exact .inl ⟨new, rfl, rfl⟩
        · rw [get_put_other _ _ new] at mine
          exact .inr mine
      · rw [onDestination_sessions] at before
        exact ⟨t, before, rfl, fun pid at_ mine => .inr mine⟩
    refine ⟨?_, ?_, ?_⟩
    · intro i t here
      dsimp only
      obtain ⟨old, before, -, pids⟩ := sessions i t here
      obtain ⟨low, named⟩ := paired.named i old before
      refine ⟨by omega, ?_⟩
      intro pid at_ mine
      rcases pids pid at_ mine with ⟨new, -⟩ | was
      · omega
      · have := named pid at_ was
        omega
    · intro i d' pid p here member
      dsimp only
      obtain ⟨d, before, made⟩ := destinations i d' here
      rcases made pid p member with ⟨new, -⟩ | was
      · omega
      · have := paired.made i d pid p before was
        omega
    · intro i t pid at_ d' p here mine there' member
      obtain ⟨old, before, mode, pids⟩ := sessions i t here
      obtain ⟨d, was, made⟩ := destinations at_ d' there'
      rw [mode]
      rcases pids pid at_ mine with ⟨new, -, same⟩ | older
      · rcases made pid p member with ⟨-, equal⟩ | wasMade
        · rw [equal, same]
        · have := paired.made at_ d pid p was wasMade
          omega
      · rcases made pid p member with ⟨new, -⟩ | wasMade
        · have := (paired.named i old before).2 pid at_ older
          omega
        · exact paired.modes i old pid at_ d p before older was wasMade
  next =>
    exact paired.fewer (by dsimp only; omega) (Fewer.refl _)

theorem paired_start : Paired ({} : Run) where
  named _ _ there := by cases there
  made _ _ _ _ there := by cases there
  modes _ _ _ _ _ _ there := by cases there

theorem throws_fewer (w : World) (sid done : Nat) (left : Interrupted)
    {part : Text → World → (Nat × Nat) ⊕ (Nat × Nat) → World}
    (alike : ∀ t w p, Alike w (part t w p)) : Fewer w (World.throws w sid part done left) := by
  unfold World.throws
  split
  · exact Fewer.refl w
  · next s found =>
    split
    · exact Fewer.refl w
    · have parts := alike_fold (alike s.suffix) ((participants s).take done) w
      have thrown := onDestination_alike (((participants s).take done).foldl (part s.suffix) w)
        (destinationOf ‹_›) left.kin
      exact fewer_set (Alike.fewer (parts.trans thrown)) found rfl fun _ _ => id

theorem paired_next (r : Run) (a : Act) (paired : Paired r) : Paired (r.next a) := by
  cases a with
  | createSession mode id => exact paired.createSession mode id.1
  | createProducer sid did => exact paired.createProducer sid did
  | createDestination sid did type =>
    exact paired.fewer (Nat.le_succ _) (createDestination_fewer _ _ _ _ _)
  | createConsumer env sid did selector =>
    exact paired.fewer (Nat.le_succ _) (createConsumer_fewer _ _ _ _ _ _)
  | createDurableConsumer env sid did clientID name selector =>
    exact paired.fewer (Nat.le_succ _) (createDurableConsumer_fewer _ _ _ _ _ _ _ _)
  | deleteConsumer sid cid => exact paired.fewer le_rfl (deleteConsumer_fewer _ _ _)
  | unsubscribe did clientID name => exact paired.fewer le_rfl (unsubscribe_fewer _ _ _ _)
  | deleteProducer env sid pid => exact paired.fewer le_rfl (deleteProducer_fewer _ _ _ _)
  | send env sid pid m => exact paired.fewer le_rfl (Alike.fewer (send_alike _ _ _ _ _))
  | sendWith env sid pid m opts => exact paired.fewer le_rfl (Alike.fewer (sendWith_alike _ _ _ _ _ _))
  | recover env sid => exact paired.fewer le_rfl (Alike.fewer (recover_alike _ _ _))
  | closeSession env sid id => exact paired.fewer le_rfl (closeSession_fewer _ _ _ _)
  | commitThrows env sid done left =>
    exact paired.fewer le_rfl (throws_fewer _ _ _ _ fun t w p => commitPart_alike env t w p)
  | rollbackThrows env sid done left =>
    exact paired.fewer le_rfl (throws_fewer _ _ _ _ fun t w p => rollbackPart_alike env false t w p)
  | commit env sid id =>
    refine paired.fewer le_rfl ?_
    cases found : r.world.sessions sid with
    | none => simpa [Run.next, Run.to, World.commit, found] using Fewer.refl r.world
    | some s =>
      simp only [Run.next, Run.to, commit_participants env r.world sid id.1 found]
      exact fewer_set (Alike.fewer (alike_fold (commitPart_alike env s.suffix) _ _)) found rfl
        fun _ _ mine => mine
  | rollback env sid id =>
    refine paired.fewer le_rfl ?_
    cases found : r.world.sessions sid with
    | none => simpa [Run.next, Run.to, World.rollback, found] using Fewer.refl r.world
    | some s =>
      simp only [Run.next, Run.to, rollback_participants env r.world sid false id.1 found]
      exact fewer_set (Alike.fewer (alike_fold (rollbackPart_alike env false s.suffix) _ _)) found rfl
        fun _ _ mine => mine

theorem transaction_id_tracks_mode (acts : List Act) :
    ((∀ r ∈ states Run.next {} acts, Agree r) ↔ Meets Run.next Orderly {} acts) ∧
    (Meets Run.next Orderly {} acts → Meets Run.next PushSafe {} acts) := by
  have start : Agree {} := by
    intro sid s found
    cases found
  constructor
  · exact invariant_iff (fun _ _ (_ : True) => trivial)
      (fun r a _ agree => next_agree_iff r a agree) trivial start
  · intro orderly
    have kept : ∀ r a, Paired r ∧ Agree r → Orderly r a →
        Paired (r.next a) ∧ Agree (r.next a) := by
      intro r a both step
      exact ⟨paired_next r a both.1, (next_agree_iff r a both.2).mpr step⟩
    exact meets_along kept (fun r a both _ => both.1.pushSafe both.2 a) ⟨paired_start, start⟩ orderly

def opened (mode : AcknowledgeMode) : List Act :=
  [.createSession mode someId, .createDestination 0 5 .Queue, .createProducer 0 5]

def postOne : Act := .send calm 0 2 (letter 0 7)

theorem stray_ends_break_push :
    ((∃ r ∈ states Run.next {} (opened .AUTO_ACKNOWLEDGE ++ [.commit calm 0 someId]), ¬ Agree r) ∧
      ¬ Meets Run.next PushSafe {} (opened .AUTO_ACKNOWLEDGE ++ [.commit calm 0 someId, postOne])) ∧
    (∃ r ∈ states Run.next {} (opened .SESSION_TRANSACTED ++
        [.commitThrows calm 0 0 ⟨fun d => d, Kin.refl⟩]), ¬ Agree r) ∧
      ¬ Meets Run.next PushSafe {} (opened .SESSION_TRANSACTED ++
        [.commitThrows calm 0 0 ⟨fun d => d, Kin.refl⟩, postOne]) := by
  refine ⟨⟨⟨_, last_state_mem _ _ _, ?_⟩, ?_⟩, ⟨_, last_state_mem _ _ _, ?_⟩, ?_⟩
  · intro agree
    have transacted := (agree 0 _ rfl).mp (by decide)
    cases transacted
  · rintro ⟨-, -, -, -, safe, -⟩
    have staging := (safe _ _ _ _ rfl rfl rfl rfl).1 (by decide)
    cases staging
  · intro agree
    have open_ := (agree 0 _ rfl).mpr rfl
    exact open_ rfl
  · rintro ⟨-, -, -, -, safe, -⟩
    have held := ((safe _ _ _ _ rfl rfl rfl rfl).2 rfl).1
    have lengths := congrArg (fun q => (q .shared).toList.length) held
    revert lengths
    decide

theorem transacted_session_stays_open :
    Meets Run.next Orderly {} (opened .SESSION_TRANSACTED ++ [postOne, .commit calm 0 someId]) ∧
    ∀ r ∈ states Run.next {} (opened .SESSION_TRANSACTED ++ [postOne, .commit calm 0 someId]),
      Agree r := by
  have orderly : Meets Run.next Orderly {}
      (opened .SESSION_TRANSACTED ++ [postOne, .commit calm 0 someId]) := by
    refine ⟨trivial, trivial, trivial, trivial, ?_, trivial⟩
    intro s found
    cases found
    rfl
  exact ⟨orderly, (transaction_id_tracks_mode _).1.mpr orderly⟩

end TinyMqTransactionIds
