import TinyMq.Broker.SessionRuns

/-!
The consumers registered in a destination against the sessions they were created
with. The default consumer of a queue is registered in the destination only; its
session does not know it.
-/
namespace TinyMqConsumerOwners
open DelimitedText AssocLists TinyMqTom TinyMqMessage TinyMqStore TinyMqDestination TinyMqSession
open TinyMqFrames TinyMqSessionRuns Machines

/-- Every registered consumer was created with a session that is still there, and on a queue
    no default consumer is registered beside an explicit one. -/
structure Rightful (r : Run) : Prop where
  live : ∀ did d, r.world.destinations did = some d → ∀ cid ∈ d.consumers,
    ∃ o, r.owner cid = some o ∧ r.world.sessions o.session ≠ none
  unmixed : ∀ did d, r.world.destinations did = some d → d.isQueueFamily = true →
    ∀ a ∈ d.consumers, ∀ b ∈ d.consumers, ∀ o o', r.owner a = some o → r.owner b = some o' →
      o.default = o'.default

/-- `createDestination` on a queue without explicit consumers; `createConsumer` on a queue whose
    registered default consumers are all the remembered one; the end of a session none of whose
    default consumers is registered. -/
def Careful (r : Run) : Act → Prop
  | .createDestination sid did _ => r.world.sessions sid ≠ none →
      ∀ d, r.world.destinations did = some d → d.isQueueFamily = true →
        ∀ cid ∈ d.consumers, ∀ o, r.owner cid = some o → o.default = true
  | .createConsumer _ sid did _ => r.world.sessions sid ≠ none →
      ∀ d, r.world.destinations did = some d → d.isQueueFamily = true →
        ∀ cid ∈ d.consumers, ∀ o, r.owner cid = some o → o.default = true →
          d.defaultConsumer = some cid
  | .closeSession _ sid _ => r.world.sessions sid ≠ none →
      ∀ did d, r.world.destinations did = some d →
        ∀ cid ∈ d.consumers, ∀ o, r.owner cid = some o → o.session = sid → o.default = false
  | _ => True

/-- What is known of every registered consumer, of a session's own ones, and of names. -/
structure Known (r : Run) : Prop where
  named : ∀ sid, r.nextId ≤ sid → r.world.sessions sid = none
  owned : ∀ did d cid, r.world.destinations did = some d → cid ∈ d.consumers →
    cid < r.nextId ∧ ∃ o, r.owner cid = some o ∧ o.session < r.nextId ∧
      (o.default = false → ∀ s, r.world.sessions o.session = some s →
        get s.consumers cid = some did)
  nodup : ∀ did d, r.world.destinations did = some d → d.consumers.Nodup
  mine : ∀ sid s cid did, r.world.sessions sid = some s → get s.consumers cid = some did →
    cid < r.nextId ∧ ∃ o, r.owner cid = some o ∧ o.default = false

theorem known_start : Known ({} : Run) where
  named _ _ := rfl
  owned _ _ _ there := by cases there
  nodup _ _ there := by cases there
  mine _ _ _ _ there := by cases there

theorem rightful_start : Rightful ({} : Run) where
  live _ _ there := by cases there
  unmixed _ _ there := by cases there

structure Still (w w' : World) : Prop where
  sessions : ∀ sid, (w'.sessions sid).map Session.consumers =
    (w.sessions sid).map Session.consumers
  destinations : ∀ did, (w'.destinations did).map (fun d => (d.type, d.consumers)) =
    (w.destinations did).map fun d => (d.type, d.consumers)

theorem Still.refl (w : World) : Still w w := ⟨fun _ => rfl, fun _ => rfl⟩

theorem Still.trans {w w' w'' : World} (one : Still w w') (two : Still w' w'') : Still w w'' where
  sessions sid := (two.sessions sid).trans (one.sessions sid)
  destinations did := (two.destinations did).trans (one.destinations did)

theorem Still.symm {w w' : World} (still : Still w w') : Still w' w where
  sessions sid := (still.sessions sid).symm
  destinations did := (still.destinations did).symm

theorem Still.destination {w w' : World} (still : Still w w') {did : Nat} {d' : Destination}
    (there : w'.destinations did = some d') : ∃ d, w.destinations did = some d ∧
      d.type = d'.type ∧ d.consumers = d'.consumers := by
  have same := still.destinations did
  rw [there, Option.map_some] at same
  obtain ⟨d, here, equal⟩ := Option.map_eq_some_iff.mp same.symm
  exact ⟨d, here, congrArg Prod.fst equal, congrArg Prod.snd equal⟩

theorem Still.session {w w' : World} (still : Still w w') {sid : Nat} {s' : Session}
    (there : w'.sessions sid = some s') : ∃ s, w.sessions sid = some s ∧
      s.consumers = s'.consumers := by
  have same := still.sessions sid
  rw [there, Option.map_some] at same
  exact Option.map_eq_some_iff.mp same.symm

theorem Still.alive {w w' : World} (still : Still w w') {sid : Nat} :
    w'.sessions sid = none ↔ w.sessions sid = none := by
  have same := still.sessions sid
  constructor
  · intro none
    rw [none, Option.map_none] at same
    exact Option.map_eq_none_iff.mp same.symm
  · intro none
    rw [none, Option.map_none] at same
    exact Option.map_eq_none_iff.mp same

theorem queueFamily_of_type {d d' : Destination} (same : d.type = d'.type) :
    d.isQueueFamily = d'.isQueueFamily := by
  unfold Destination.isQueueFamily
  rw [same]

/-- Consumers may have left, and none is new. Names may have been used up, by a session without
    consumers too. -/
structure Leaves (r r' : Run) : Prop where
  later : r.nextId ≤ r'.nextId
  owner : ∀ cid < r.nextId, r'.owner cid = r.owner cid
  named : ∀ sid, r'.nextId ≤ sid → r'.world.sessions sid = none
  fresh : ∀ sid s', r'.world.sessions sid = some s' → r.nextId ≤ sid → s'.consumers = []
  sessions : ∀ sid s', r'.world.sessions sid = some s' → sid < r.nextId →
    ∃ s, r.world.sessions sid = some s ∧
      ∀ cid did, get s'.consumers cid = some did → get s.consumers cid = some did
  destinations : ∀ did d' cid, r'.world.destinations did = some d' → cid ∈ d'.consumers →
    ∃ d, r.world.destinations did = some d ∧ d.type = d'.type ∧
      d'.consumers.Sublist d.consumers ∧
      ∀ sid s s', r.world.sessions sid = some s → r'.world.sessions sid = some s' →
        get s.consumers cid = some did → get s'.consumers cid = some did

theorem Leaves.known {r r' : Run} (leaves : Leaves r r') (known : Known r) : Known r' where
  named := leaves.named
  owned did d' cid there member := by
    obtain ⟨d, here, -, fewer, noted⟩ := leaves.destinations did d' cid there member
    obtain ⟨low, o, found, session, mine⟩ := known.owned did d cid here (fewer.subset member)
    have later := leaves.later
    refine ⟨by omega, o, by rw [leaves.owner cid low]; exact found, by omega, ?_⟩
    intro explicit s' alive
    obtain ⟨s, before, -⟩ := leaves.sessions o.session s' alive session
    exact noted o.session s s' before alive (mine explicit s before)
  nodup did d' there := by
    cases some : d'.consumers with
    | nil => exact List.nodup_nil
    | cons cid rest =>
      obtain ⟨d, here, -, fewer, -⟩ := leaves.destinations did d' cid there (by simp [some])
      rw [← some]
      exact fewer.nodup (known.nodup did d here)
  mine sid s' cid did there found := by
    by_cases low : sid < r.nextId
    · obtain ⟨s, before, old⟩ := leaves.sessions sid s' there low
      obtain ⟨below, o, owned, explicit⟩ := known.mine sid s cid did before (old cid did found)
      have later := leaves.later
      exact ⟨by omega, o, by rw [leaves.owner cid below]; exact owned, explicit⟩
    · rw [leaves.fresh sid s' there (by omega)] at found
      cases found

theorem Leaves.rightful {r r' : Run} (leaves : Leaves r r') (known : Known r)
    (rightful : Rightful r)
    (alive : ∀ did d' cid o, r'.world.destinations did = some d' → cid ∈ d'.consumers →
      r.owner cid = some o → r.world.sessions o.session ≠ none →
        r'.world.sessions o.session ≠ none) : Rightful r' where
  live did d' there cid member := by
    obtain ⟨d, here, -, fewer, -⟩ := leaves.destinations did d' cid there member
    obtain ⟨o, found, before⟩ := rightful.live did d here cid (fewer.subset member)
    have low := (known.owned did d cid here (fewer.subset member)).1
    exact ⟨o, by rw [leaves.owner cid low]; exact found, alive did d' cid o there member found before⟩
  unmixed did d' there queue a ina b inb o o' oa ob := by
    obtain ⟨d, here, type, fewer, -⟩ := leaves.destinations did d' a there ina
    rw [← queueFamily_of_type type] at queue
    have ina := fewer.subset ina
    have inb := fewer.subset inb
    rw [leaves.owner a (known.owned did d a here ina).1] at oa
    rw [leaves.owner b (known.owned did d b here inb).1] at ob
    exact rightful.unmixed did d here queue a ina b inb o o' oa ob

theorem Known.low {r : Run} (known : Known r) {sid : Nat} {s : Session}
    (found : r.world.sessions sid = some s) : sid < r.nextId := by
  by_contra high
  rw [known.named sid (by omega)] at found
  cases found

theorem Still.leaves {r r' : Run} (still : Still r.world r'.world) (known : Known r)
    (later : r.nextId ≤ r'.nextId) (owner : ∀ cid < r.nextId, r'.owner cid = r.owner cid) :
    Leaves r r' where
  later := later
  owner := owner
  named sid beyond := still.alive.mpr (known.named sid (by omega))
  fresh sid s' there high := by
    obtain ⟨s, before, -⟩ := still.session there
    have low := known.low before
    omega
  sessions sid s' there _ := by
    obtain ⟨s, before, same⟩ := still.session there
    exact ⟨s, before, fun cid did found => by rw [same]; exact found⟩
  destinations did d' cid there member := by
    obtain ⟨d, here, type, consumers⟩ := still.destination there
    refine ⟨d, here, type, by rw [consumers], ?_⟩
    intro sid s s' before after found
    obtain ⟨t, same, equal⟩ := still.session after
    rw [before] at same
    cases same
    rw [← equal]
    exact found

theorem Still.rightful {r r' : Run} (still : Still r.world r'.world) (known : Known r)
    (later : r.nextId ≤ r'.nextId) (owner : ∀ cid < r.nextId, r'.owner cid = r.owner cid)
    (rightful : Rightful r) : Rightful r' := by
  refine (still.leaves known later owner).rightful known rightful ?_
  intro did d' cid o _ _ _ before none
  exact before (still.alive.mp none)

theorem Alike.still {w w' : World} (alike : Alike w w') : Still w w' where
  sessions sid := by rw [alike.sessions]
  destinations did := by
    cases here : w.destinations did with
    | none => rw [alike.gone did here]
    | some d =>
      obtain ⟨d', there, kin⟩ := alike.kin did d here
      simp [there, kin.type, kin.consumers]

theorem still_set {w w' : World} (still : Still w w') {sid : Nat} {s s' : Session}
    (found : w.sessions sid = some s) (same : s'.consumers = s.consumers) :
    Still w (w'.setSession sid s') where
  sessions i := by
    by_cases here : i = sid
    · rw [here, setSession_same, found]
      simp [same]
    · rw [setSession_other _ _ here]
      exact still.sessions i
  destinations := still.destinations

theorem throws_still (w : World) (sid done : Nat) (left : Interrupted)
    {part : Text → World → (Nat × Nat) ⊕ (Nat × Nat) → World}
    (alike : ∀ t w p, Alike w (part t w p)) : Still w (World.throws w sid part done left) := by
  unfold World.throws
  cases found : w.sessions sid with
  | none => exact Still.refl w
  | some s =>
    dsimp only
    split
    · exact Still.refl w
    · refine still_set (Alike.still ?_) found rfl
      exact (alike_fold (alike s.suffix) _ _).trans (onDestination_alike _ _ left.kin)

theorem commit_still (env : Env) (w : World) (sid : Nat) (t : Text) :
    Still w (w.commit env sid t) := by
  cases found : w.sessions sid with
  | none =>
    simp only [World.commit, found]
    exact Still.refl w
  | some s =>
    rw [commit_participants env w sid t found]
    exact still_set (Alike.still (alike_fold (commitPart_alike env s.suffix) _ _)) found rfl

theorem rollback_still (env : Env) (w : World) (sid : Nat) (closing : Bool) (t : Text) :
    Still w (w.rollback env sid closing t) := by
  cases found : w.sessions sid with
  | none =>
    simp only [World.rollback, found]
    exact Still.refl w
  | some s =>
    rw [rollback_participants env w sid closing t found]
    exact still_set (Alike.still (alike_fold (rollbackPart_alike env closing s.suffix) _ _)) found rfl

theorem on_still (w : World) (did : Nat) {f : Destination → Destination}
    (same : ∀ d, (f d).type = d.type ∧ (f d).consumers = d.consumers) :
    Still w (w.onDestination did f) where
  sessions sid := by rw [onDestination_sessions]
  destinations i := by
    by_cases here : i = did
    · subst here
      cases found : w.destinations i with
      | none => simp [World.onDestination, found]
      | some d =>
        rw [onDestination_same found]
        simp [same d]
    · rw [onDestination_other w here]

theorem createProducer_still (w : World) (sid did pid : Nat) :
    Still w (w.createProducer sid did pid) := by
  unfold World.createProducer
  split
  · next s d found here =>
    refine still_set (on_still w did ?_) found rfl
    exact fun d => ⟨rfl, rfl⟩
  · exact Still.refl w

theorem deleteProducer_keeps (env : Env) (d : Destination) (pid : Nat) (t : Text) :
    (d.deleteProducer env pid t).type = d.type ∧
      (d.deleteProducer env pid t).consumers = d.consumers := by
  have kin := rollbackProducer_kin env d pid t
  exact ⟨kin.type, kin.consumers⟩

theorem deleteProducer_still (env : Env) (w : World) (sid pid : Nat) :
    Still w (w.deleteProducer env sid pid) := by
  unfold World.deleteProducer
  split
  · exact Still.refl w
  · next s found =>
    split
    · exact Still.refl w
    · next did mine =>
      exact still_set (on_still w did fun d => deleteProducer_keeps env d pid s.suffix) found rfl

theorem owned_new (r : Run) (sid : Nat) (default : Bool) (w : World) :
    (r.owned sid default w).owner r.nextId = some ⟨sid, default⟩ := by
  simp [Run.owned]

theorem owned_old (r : Run) (sid : Nat) (default : Bool) (w : World) {cid : Nat}
    (old : cid < r.nextId) : (r.owned sid default w).owner cid = r.owner cid := by
  simp [Run.owned, Function.update_of_ne (show cid ≠ r.nextId by omega)]

/-- A consumer with the next name is registered behind `stay`, and noted in its session when it
    is an explicit one. -/
structure Joins (r : Run) (sid did : Nat) (default : Bool) (stay : List Nat) (d' : Destination)
    (w' : World) : Prop where
  alive : r.world.sessions sid ≠ none
  here : w'.destinations did = some d'
  consumers : d'.consumers = stay ++ [r.nextId]
  distinct : stay.Nodup
  before : ∀ cid ∈ stay, ∃ d, r.world.destinations did = some d ∧ cid ∈ d.consumers
  other : ∀ i, i ≠ did → w'.destinations i = r.world.destinations i
  sessions : ∀ i, (w'.sessions i).map Session.consumers = (r.world.sessions i).map fun s =>
    if i = sid ∧ default = false then put s.consumers r.nextId did else s.consumers

section Joins
variable {r : Run} {sid did : Nat} {default : Bool} {stay : List Nat} {d' : Destination} {w' : World}

theorem Joins.session (joins : Joins r sid did default stay d' w') {i : Nat} {s' : Session}
    (there : w'.sessions i = some s') : ∃ s, r.world.sessions i = some s ∧ s'.consumers =
      if i = sid ∧ default = false then put s.consumers r.nextId did else s.consumers := by
  have same := joins.sessions i
  rw [there, Option.map_some] at same
  obtain ⟨s, found, equal⟩ := Option.map_eq_some_iff.mp same.symm
  exact ⟨s, found, equal.symm⟩

theorem Joins.gone (joins : Joins r sid did default stay d' w') {i : Nat} :
    w'.sessions i = none ↔ r.world.sessions i = none := by
  have same := joins.sessions i
  constructor
  · intro none
    rw [none, Option.map_none] at same
    exact Option.map_eq_none_iff.mp same.symm
  · intro none
    rw [none, Option.map_none] at same
    exact Option.map_eq_none_iff.mp same

theorem Joins.get_old (joins : Joins r sid did default stay d' w') {i cid : Nat} {s s' : Session}
    (before : r.world.sessions i = some s) (after : w'.sessions i = some s') (old : cid < r.nextId) :
    get s'.consumers cid = get s.consumers cid := by
  obtain ⟨t, found, equal⟩ := joins.session after
  rw [before] at found
  cases found
  rw [equal]
  split
  · exact get_put_other _ _ (by omega)
  · rfl

theorem Joins.member (joins : Joins r sid did default stay d' w') {i cid : Nat} {e : Destination}
    (there : w'.destinations i = some e) (member : cid ∈ e.consumers) :
    (i = did ∧ cid = r.nextId) ∨ ∃ d, r.world.destinations i = some d ∧ cid ∈ d.consumers := by
  by_cases same : i = did
  · subst same
    rw [joins.here] at there
    cases there
    rw [joins.consumers, List.mem_append, List.mem_singleton] at member
    rcases member with old | new
    · obtain ⟨d, found, mine⟩ := joins.before cid old
      exact Or.inr ⟨d, found, mine⟩
    · exact Or.inl ⟨rfl, new⟩
  · rw [joins.other i same] at there
    exact Or.inr ⟨e, there, member⟩

theorem Joins.known (joins : Joins r sid did default stay d' w') (known : Known r) :
    Known (r.owned sid default w') where
  named i beyond := by
    have high : r.nextId + 1 ≤ i := beyond
    exact joins.gone.mpr (known.named i (by omega))
  owned i e cid there member := by
    rcases joins.member there member with ⟨rfl, rfl⟩ | ⟨d, found, mine⟩
    · refine ⟨Nat.lt_succ_self _, ⟨sid, default⟩, owned_new r sid default w', ?_, ?_⟩
      · obtain ⟨s, found⟩ := Option.ne_none_iff_exists'.mp joins.alive
        exact Nat.lt_succ_of_lt (known.low found)
      · intro explicit s' after
        obtain ⟨s, before, equal⟩ := joins.session after
        rw [equal, if_pos ⟨rfl, explicit⟩, get_put_same]
    · obtain ⟨low, o, owner, session, listed⟩ := known.owned i d cid found mine
      refine ⟨Nat.lt_succ_of_lt low, o, ?_, Nat.lt_succ_of_lt session, ?_⟩
      · rw [owned_old r sid default w' low]
        exact owner
      · intro explicit s' after
        obtain ⟨s, before, -⟩ := joins.session after
        rw [joins.get_old before after low]
        exact listed explicit s before
  nodup i e there := by
    change w'.destinations i = some e at there
    by_cases same : i = did
    · subst same
      rw [joins.here] at there
      cases there
      rw [joins.consumers]
      refine List.Nodup.append joins.distinct (by simp) ?_
      intro cid old new
      obtain ⟨d, found, mine⟩ := joins.before cid old
      have low := (known.owned i d cid found mine).1
      rw [List.mem_singleton] at new
      omega
    · exact known.nodup i e (by rw [← joins.other i same]; exact there)
  mine i s' cid j after found := by
    obtain ⟨s, before, equal⟩ := joins.session after
    by_cases new : cid = r.nextId
    · subst new
      -- only the explicit branch of the call notes the new name
      rw [equal] at found
      by_cases explicit : i = sid ∧ default = false
      · exact ⟨Nat.lt_succ_self _, ⟨sid, default⟩, owned_new r sid default w', explicit.2⟩
      · rw [if_neg explicit] at found
        have low := (known.mine i s r.nextId j before found).1
        omega
    · have listed : get s.consumers cid = some j := by
        rw [equal] at found
        split at found
        · rwa [get_put_other _ _ new] at found
        · exact found
      obtain ⟨low, o, owner, explicit⟩ := known.mine i s cid j before listed
      refine ⟨Nat.lt_succ_of_lt low, o, ?_, explicit⟩
      rw [owned_old r sid default w' low]
      exact owner

/- Whoever stays on a queue beside the new consumer must be of its kind. -/
theorem Joins.rightful_iff (joins : Joins r sid did default stay d' w') (known : Known r)
    (rightful : Rightful r) : Rightful (r.owned sid default w') ↔
      (d'.isQueueFamily = true → ∀ cid ∈ stay, ∀ o, r.owner cid = some o → o.default = default) := by
  constructor
  · intro after queue cid stays o owner
    obtain ⟨d, found, mine⟩ := joins.before cid stays
    have low := (known.owned did d cid found mine).1
    refine after.unmixed did d' joins.here queue cid ?_ r.nextId ?_ o ⟨sid, default⟩ ?_ ?_
    · rw [joins.consumers]
      exact List.mem_append_left _ stays
    · rw [joins.consumers]
      exact List.mem_append_right _ (List.mem_singleton_self _)
    · rw [owned_old r sid default w' low]
      exact owner
    · exact owned_new r sid default w'
  · intro kind
    refine ⟨?_, ?_⟩
    · intro i e there cid member
      rcases joins.member there member with ⟨rfl, rfl⟩ | ⟨d, found, mine⟩
      · exact ⟨_, owned_new r sid default w', fun none => joins.alive (joins.gone.mp none)⟩
      · obtain ⟨o, owner, alive⟩ := rightful.live i d found cid mine
        have low := (known.owned i d cid found mine).1
        exact ⟨o, by rw [owned_old r sid default w' low]; exact owner,
          fun none => alive (joins.gone.mp none)⟩
    · intro i e there queue a ina b inb o o' oa ob
      change w'.destinations i = some e at there
      by_cases same : i = did
      · subst same
        rw [joins.here] at there
        cases there
        have all : ∀ cid ∈ d'.consumers, ∀ o, (r.owned sid default w').owner cid = some o →
            o.default = default := by
          intro cid member o owner
          rw [joins.consumers, List.mem_append, List.mem_singleton] at member
          rcases member with old | new
          · obtain ⟨d, found, mine⟩ := joins.before cid old
            rw [owned_old r sid default w' (known.owned i d cid found mine).1] at owner
            exact kind queue cid old o owner
          · rw [new, owned_new] at owner
            cases owner
            rfl
        rw [all a ina o oa, all b inb o' ob]
      · rw [joins.other i same] at there
        rw [owned_old r sid default w' (known.owned i e a there ina).1] at oa
        rw [owned_old r sid default w' (known.owned i e b there inb).1] at ob
        exact rightful.unmixed i e there queue a ina b inb o o' oa ob

end Joins

theorem createDestination_joins {r : Run} (known : Known r) {sid did : Nat} {type : DestinationType}
    {s : Session} (found : r.world.sessions sid = some s)
    (queue : ((r.world.destinations did).getD { type := type }).isQueueFamily = true) :
    Joins r sid did true ((r.world.destinations did).getD { type := type }).consumers
      (((r.world.destinations did).getD { type := type }).createDefaultConsumer r.nextId s.mode)
      (r.world.createDestination sid did type r.nextId) where
  alive := by simp [found]
  here := by simp [World.createDestination, found]
  consumers := by simp [Destination.createDefaultConsumer, queue]
  distinct := by
    cases here : r.world.destinations did with
    | none => exact List.nodup_nil
    | some d => exact known.nodup did d here
  before cid member := by
    cases here : r.world.destinations did with
    | none => simp [here] at member
    | some d => exact ⟨d, rfl, by simpa [here] using member⟩
  other i other := by simp [World.createDestination, found, Function.update_of_ne other]
  sessions i := by simp [World.createDestination, found]

theorem leaves_destinations {r r' : Run} (known : Known r)
    (sessions : r'.world.sessions = r.world.sessions) (later : r.nextId ≤ r'.nextId)
    (owner : ∀ cid < r.nextId, r'.owner cid = r.owner cid)
    (destinations : ∀ did d' cid, r'.world.destinations did = some d' → cid ∈ d'.consumers →
      ∃ d, r.world.destinations did = some d ∧ d.type = d'.type ∧
        d'.consumers.Sublist d.consumers) : Leaves r r' where
  later := later
  owner := owner
  named sid beyond := by
    rw [sessions]
    exact known.named sid (by omega)
  fresh sid s' there high := by
    rw [sessions] at there
    have low := known.low there
    omega
  sessions sid s' there _ := by
    rw [sessions] at there
    exact ⟨s', there, fun _ _ => id⟩
  destinations did d' cid there member := by
    obtain ⟨d, here, type, fewer⟩ := destinations did d' cid there member
    refine ⟨d, here, type, fewer, ?_⟩
    intro sid s s' before after found
    rw [sessions, before] at after
    cases after
    exact found

theorem Leaves.rightful_same {r r' : Run} (leaves : Leaves r r') (known : Known r)
    (rightful : Rightful r) (sessions : r'.world.sessions = r.world.sessions) : Rightful r' := by
  refine leaves.rightful known rightful ?_
  intro did d' cid o _ _ _ before
  rw [sessions]
  exact before

@[simp] theorem createDestination_sessions (w : World) (sid did : Nat) (type : DestinationType)
    (cid : Nat) : (w.createDestination sid did type cid).sessions = w.sessions := by
  unfold World.createDestination
  split <;> rfl

theorem createDestination_leaves {r : Run} (known : Known r) {sid did : Nat}
    {type : DestinationType}
    (idle : r.world.sessions sid ≠ none →
      ((r.world.destinations did).getD { type := type }).isQueueFamily = false) :
    Leaves r (r.next (.createDestination sid did type)) := by
  refine leaves_destinations known (createDestination_sessions _ _ _ _ _) (Nat.le_succ _)
    (fun cid low => owned_old r sid true _ low) ?_
  intro i d' cid there member
  have there : (r.world.createDestination sid did type r.nextId).destinations i = some d' := there
  unfold World.createDestination at there
  cases found : r.world.sessions sid with
  | none =>
    rw [found] at there
    exact ⟨d', there, rfl, List.Sublist.refl _⟩
  | some s =>
    have topic := idle (by simp [found])
    rw [found] at there
    by_cases same : i = did
    · subst same
      simp only [Function.update_self, Option.some.injEq, Destination.createDefaultConsumer, topic,
        Bool.false_eq_true, if_false] at there
      cases here : r.world.destinations i with
      | none =>
        rw [here] at there
        simp [← there] at member
      | some d =>
        rw [here] at there
        exact ⟨d, rfl, by rw [← there]; rfl, by rw [← there]; exact List.Sublist.refl _⟩
    · simp only [Function.update_of_ne same] at there
      exact ⟨d', there, rfl, List.Sublist.refl _⟩

/-- Who is registered while `createConsumer` goes on: on a queue the remembered default consumer
    has left. -/
def staying (d : Destination) : List Nat :=
  if d.isQueueFamily then d.dropDefault.consumers else d.consumers

theorem dropDefault_type (d : Destination) : d.dropDefault.type = d.type := by
  unfold Destination.dropDefault
  split <;> rfl

theorem createConsumer_type (env : Env) (d : Destination) (id : Nat) (mode : AcknowledgeMode)
    (selector : Option Selector) : (d.createConsumer env id mode selector).type = d.type := by
  unfold Destination.createConsumer
  dsimp only
  split
  · split
    · rw [(replayFromStorage_kin env _ _ _).type]
      exact dropDefault_type d
    · exact dropDefault_type d
  · rfl

theorem createConsumer_consumers (env : Env) (d : Destination) (id : Nat) (mode : AcknowledgeMode)
    (selector : Option Selector) :
    (d.createConsumer env id mode selector).consumers = staying d ++ [id] := by
  unfold Destination.createConsumer staying
  dsimp only
  split
  · split
    · rw [(replayFromStorage_kin env _ _ _).consumers]
      rfl
    · rfl
  · rfl

theorem staying_sublist (d : Destination) : (staying d).Sublist d.consumers := by
  unfold staying Destination.dropDefault
  split
  · split
    · exact List.Sublist.refl _
    · exact List.erase_sublist
  · exact List.Sublist.refl _

theorem mem_staying {d : Destination} (distinct : d.consumers.Nodup) {cid : Nat}
    (queue : d.isQueueFamily = true) :
    cid ∈ staying d ↔ cid ∈ d.consumers ∧ d.defaultConsumer ≠ some cid := by
  unfold staying Destination.dropDefault
  rw [if_pos queue]
  cases d.defaultConsumer with
  | none => simp
  | some old =>
    rw [distinct.mem_erase_iff, Option.some_inj.ne]
    exact ⟨fun both => ⟨both.2, both.1.symm⟩, fun both => ⟨both.2.symm, both.1⟩⟩

theorem explicit_joins {r : Run} (known : Known r) {sid did : Nat} {s : Session} {d : Destination}
    (found : r.world.sessions sid = some s) (here : r.world.destinations did = some d)
    (f : Destination → Destination) {stay : List Nat}
    (consumers : (f d).consumers = stay ++ [r.nextId]) (fewer : stay.Sublist d.consumers) :
    Joins r sid did false stay (f d)
      ((r.world.onDestination did f).setSession sid
        { s with consumers := put s.consumers r.nextId did }) where
  alive := by simp [found]
  here := onDestination_same here f
  consumers := consumers
  distinct := fewer.nodup (known.nodup did d here)
  before cid member := ⟨d, here, fewer.subset member⟩
  other i other := onDestination_other r.world other f
  sessions i := by
    by_cases same : i = sid
    · rw [same, setSession_same, found]
      simp
    · rw [setSession_other _ _ same, onDestination_sessions]
      simp [same]

theorem attachDurable_consumers (env : Env) (d : Destination) (id : Nat) (mode : AcknowledgeMode)
    (key : Text) (sub : DurableSubState) (selector : Option Selector) :
    (d.attachDurable env id mode key sub selector).consumers = d.consumers ++ [id] := by
  unfold Destination.attachDurable
  dsimp only
  rw [(replayFromStorage_kin env _ _ _).consumers]
  rfl

theorem attachDurable_type (env : Env) (d : Destination) (id : Nat) (mode : AcknowledgeMode)
    (key : Text) (sub : DurableSubState) (selector : Option Selector) :
    (d.attachDurable env id mode key sub selector).type = d.type := by
  unfold Destination.attachDurable
  dsimp only
  rw [(replayFromStorage_kin env _ _ _).type]
  rfl

theorem createDurableConsumer_ok (env : Env) (d : Destination) (id : Nat) (mode : AcknowledgeMode)
    (clientID name : Text) (selector : Option Selector)
    (ok : (d.createDurableConsumer env id mode clientID name selector).2 = .ok ()) :
    (d.createDurableConsumer env id mode clientID name selector).1.isQueueFamily = false ∧
      (d.createDurableConsumer env id mode clientID name selector).1.consumers =
        d.consumers ++ [id] := by
  by_cases topic : d.isTopicFamily = true
  · have notQueue := topic_notQueue topic
    unfold Destination.createDurableConsumer at ok ⊢
    dsimp only at ok ⊢
    rw [if_neg (by simp [topic])] at ok ⊢
    split
    · exact ⟨by rw [queueFamily_of_type (attachDurable_type _ _ _ _ _ _ _)]; exact notQueue,
        attachDurable_consumers _ _ _ _ _ _ _⟩
    · next sub known =>
      rw [known] at ok
      dsimp only at ok
      by_cases busy : sub.active.isSome = true
      · rw [if_pos busy] at ok
        cases ok
      · rw [if_neg busy]
        exact ⟨by rw [queueFamily_of_type (attachDurable_type _ _ _ _ _ _ _)]; exact notQueue,
          attachDurable_consumers _ _ _ _ _ _ _⟩
  · unfold Destination.createDurableConsumer at ok
    rw [if_pos topic] at ok
    cases ok

theorem deleteConsumer_leaves_list (d : Destination) (cid : Nat) :
    (d.deleteConsumer cid).type = d.type ∧ (d.deleteConsumer cid).consumers = d.consumers.erase cid := by
  unfold Destination.deleteConsumer
  dsimp only
  split <;> exact ⟨rfl, rfl⟩

theorem deleteSubscription_leaves_list (d : Destination) (clientID name : Text) :
    (d.deleteSubscription clientID name).type = d.type ∧
      (d.deleteSubscription clientID name).consumers.Sublist d.consumers := by
  unfold Destination.deleteSubscription
  dsimp only
  split
  · exact ⟨rfl, List.Sublist.refl _⟩
  · next sub _ =>
    cases sub.active with
    | none => exact ⟨rfl, List.Sublist.refl _⟩
    | some id =>
      have gone := deleteConsumer_leaves_list d id
      exact ⟨gone.1, by rw [show _ = _ from gone.2]; exact List.erase_sublist⟩

theorem unsubscribe_leaves {r : Run} (known : Known r) (did : Nat) (clientID name : Text) :
    Leaves r (r.next (.unsubscribe did clientID name)) := by
  refine leaves_destinations known (onDestination_sessions _ _ _) le_rfl (fun _ _ => rfl) ?_
  intro i d' cid there member
  have there : (World.unsubscribe r.world did clientID name).destinations i = some d' := there
  unfold World.unsubscribe at there
  rcases onDestination_cases there with ⟨d, -, here, rfl⟩ | ⟨_, here⟩
  · obtain ⟨type, fewer⟩ := deleteSubscription_leaves_list d clientID name
    exact ⟨d, here, type.symm, fewer⟩
  · exact ⟨d', here, rfl, List.Sublist.refl _⟩

theorem deleteConsumer_leaves {r : Run} (known : Known r) (sid cid : Nat) :
    Leaves r (r.next (.deleteConsumer sid cid)) := by
  show Leaves r (r.to (r.world.deleteConsumer sid cid))
  unfold World.deleteConsumer
  cases found : r.world.sessions sid with
  | none => exact (Still.refl r.world).leaves known le_rfl fun _ _ => rfl
  | some s =>
    cases noted : get s.consumers cid with
    | none =>
      simp only [noted]
      exact (Still.refl r.world).leaves known le_rfl fun _ _ => rfl
    | some did =>
      simp only [noted]
      refine
        { later := le_rfl
          owner := fun _ _ => rfl
          named := ?named
          fresh := ?fresh
          sessions := ?sessions
          destinations := ?destinations }
      case named =>
        intro i beyond
        have low := known.low found
        have high : r.nextId ≤ i := beyond
        show ((World.setSession _ _ _).sessions i) = none
        rw [setSession_other _ _ (by omega), onDestination_sessions]
        exact known.named i high
      case fresh =>
        intro i s' there high
        have low := known.low found
        have there : (World.setSession _ _ _).sessions i = some s' := there
        rw [setSession_other _ _ (by omega), onDestination_sessions, known.named i high] at there
        cases there
      case sessions =>
        intro i s' there _
        have there : (World.setSession _ _ _).sessions i = some s' := there
        rcases setSession_cases there with ⟨rfl, rfl⟩ | ⟨_, before⟩
        · refine ⟨s, found, ?_⟩
          intro a did' listed
          by_cases gone : a = cid
          · subst gone
            rw [get_erase_same] at listed
            cases listed
          · rwa [get_erase_other _ gone] at listed
        · rw [onDestination_sessions] at before
          exact ⟨s', before, fun _ _ => id⟩
      case destinations =>
        intro i d' a there member
        have there : (r.world.onDestination did _).destinations i = some d' := there
        -- whoever is still registered here is not the one the session forgets
        have keeps : a ≠ cid ∨ i ≠ did → ∀ j t t', r.world.sessions j = some t →
            ((r.world.onDestination did fun d => d.deleteConsumer cid).setSession sid
              { s with consumers := erase s.consumers cid }).sessions j = some t' →
            get t.consumers a = some i → get t'.consumers a = some i := by
          intro apart j t t' before after listed
          rcases setSession_cases after with ⟨rfl, rfl⟩ | ⟨_, kept⟩
          · rw [found] at before
            cases before
            have other : a ≠ cid := by
              intro equal
              subst equal
              rw [noted] at listed
              cases listed
              exact apart.elim (fun h => h rfl) (fun h => h rfl)
            rw [get_erase_other _ other]
            exact listed
          · rw [onDestination_sessions, before] at kept
            cases kept
            exact listed
        rcases onDestination_cases there with ⟨d, rfl, here, rfl⟩ | ⟨other, here⟩
        · obtain ⟨type, consumers⟩ := deleteConsumer_leaves_list d cid
          rw [consumers] at member
          have other := ((known.nodup i d here).mem_erase_iff.mp member).1
          exact ⟨d, here, type.symm, by rw [consumers]; exact List.erase_sublist,
            keeps (Or.inl other)⟩
        · exact ⟨d', here, rfl, List.Sublist.refl _, keeps (Or.inr other)⟩

theorem deleteConsumer_alive (w : World) (sid cid : Nat) {i : Nat} (before : w.sessions i ≠ none) :
    (w.deleteConsumer sid cid).sessions i ≠ none := by
  unfold World.deleteConsumer
  split
  · exact before
  · split
    · exact before
    · by_cases same : i = sid
      · rw [same, setSession_same]
        simp
      · rw [setSession_other _ _ same, onDestination_sessions]
        exact before

/-- What `~Session()` does to the destinations, once the transaction has been rolled back. -/
def left (consumers : Assoc Nat Nat) (w : World) : World :=
  consumers.foldl (fun w c => w.onDestination c.2 fun d => d.deleteConsumer c.1) w

theorem left_sessions (l : Assoc Nat Nat) (w : World) : (left l w).sessions = w.sessions :=
  sessions_fold (fun _ _ => onDestination_sessions _ _ _) l w

theorem left_destination (l : Assoc Nat Nat) {w : World} {did : Nat} {d' : Destination}
    (there : (left l w).destinations did = some d') : ∃ d, w.destinations did = some d ∧
      d'.type = d.type ∧
      d'.consumers = d.consumers.diff ((l.filter (·.2 = did)).map Prod.fst) := by
  induction l generalizing w with
  | nil => exact ⟨d', there, rfl, by simp⟩
  | cons c l ih =>
    obtain ⟨e, after, type, consumers⟩ := ih (w := w.onDestination c.2 _) there
    by_cases same : c.2 = did
    · subst same
      cases here : w.destinations c.2 with
      | none => simp [World.onDestination, here] at after
      | some d =>
        rw [onDestination_same here] at after
        cases after
        obtain ⟨type', erased⟩ := deleteConsumer_leaves_list d c.1
        refine ⟨d, rfl, type.trans type', ?_⟩
        rw [consumers, erased]
        simp [List.diff_cons]
    · rw [onDestination_other _ (Ne.symm same)] at after
      refine ⟨e, after, type, ?_⟩
      rw [consumers]
      simp [same]

theorem left_kept (l : Assoc Nat Nat) {w : World} {did : Nat} {d : Destination}
    (here : w.destinations did = some d) : ∃ d', (left l w).destinations did = some d' := by
  induction l generalizing w d with
  | nil => exact ⟨d, here⟩
  | cons c l ih =>
    by_cases same : did = c.2
    · subst same
      exact ih (onDestination_same here _)
    · exact ih (by rw [onDestination_other _ same]; exact here)

theorem still_fold {ι : Type} {g : World → ι → World} (one : ∀ w i, Still w (g w i)) (l : List ι)
    (w : World) : Still w (l.foldl g w) := by
  induction l generalizing w with
  | nil => exact Still.refl w
  | cons i l ih => exact (one w i).trans (ih (g w i))

theorem producers_still (env : Env) (t : Text) (l : Assoc Nat Nat) (w : World) :
    Still w (l.foldl (fun w p => w.onDestination p.2 fun d => d.deleteProducer env p.1 t) w) :=
  still_fold (fun w (p : Nat × Nat) =>
    on_still w p.2 fun d => deleteProducer_keeps env d p.1 t) l w

section Close
variable (env : Env) {w : World} {sid : Nat} (t : Text) {s : Session}
  (found : w.sessions sid = some s)
include found

theorem closeSession_sessions_same : (w.closeSession env sid t).sessions sid = none := by
  simp [World.closeSession, found]

theorem closeSession_sessions_other {i : Nat} (other : i ≠ sid) :
    ((w.closeSession env sid t).sessions i).map Session.consumers =
      (w.sessions i).map Session.consumers := by
  simp only [World.closeSession, found, Function.update_of_ne other]
  rw [(producers_still env t s.producers _).sessions i]
  show ((left s.consumers _).sessions i).map _ = _
  rw [left_sessions]
  exact (rollback_still env w sid true t).sessions i

theorem closeSession_destination {did : Nat} {d' : Destination}
    (there : (w.closeSession env sid t).destinations did = some d') :
    ∃ d, w.destinations did = some d ∧ d.type = d'.type ∧
      d'.consumers = d.consumers.diff ((s.consumers.filter (·.2 = did)).map Prod.fst) := by
  simp only [World.closeSession, found] at there
  obtain ⟨e, second, type, consumers⟩ := (producers_still env t s.producers _).destination there
  obtain ⟨f, first, type', consumers'⟩ := left_destination s.consumers second
  obtain ⟨d, here, type'', consumers''⟩ := (rollback_still env w sid true t).destination first
  refine ⟨d, here, type''.trans (type'.symm.trans type), ?_⟩
  rw [← consumers, consumers', consumers'']

theorem closeSession_kept {did : Nat} {d : Destination} (here : w.destinations did = some d) :
    ∃ d', (w.closeSession env sid t).destinations did = some d' := by
  obtain ⟨e, first, -⟩ := (rollback_still env w sid true t).symm.destination here
  obtain ⟨f, second⟩ := left_kept s.consumers first
  obtain ⟨d', third, -⟩ := (producers_still env t s.producers _).symm.destination second
  refine ⟨d', ?_⟩
  simp only [World.closeSession, found]
  exact third

end Close

theorem closeSession_leaves {r : Run} (known : Known r) (env : Env) (sid : Nat) (t : TransactionId)
    {s : Session} (found : r.world.sessions sid = some s) :
    Leaves r (r.next (.closeSession env sid t)) := by
  have session : ∀ i s', (r.world.closeSession env sid t.1).sessions i = some s' → i ≠ sid ∧
      ∃ u, r.world.sessions i = some u ∧ u.consumers = s'.consumers := by
    intro i s' there
    have other : i ≠ sid := by
      intro same
      rw [same, closeSession_sessions_same env t.1 found] at there
      cases there
    have same := closeSession_sessions_other env t.1 found other
    rw [there, Option.map_some] at same
    exact ⟨other, Option.map_eq_some_iff.mp same.symm⟩
  refine
    { later := le_rfl
      owner := fun _ _ => rfl
      named := ?named
      fresh := ?fresh
      sessions := ?sessions
      destinations := ?destinations }
  case named =>
    intro i beyond
    cases there : (r.world.closeSession env sid t.1).sessions i with
    | none => exact there
    | some s' =>
      obtain ⟨-, u, before, -⟩ := session i s' there
      have low := known.low before
      have high : r.nextId ≤ i := beyond
      omega
  case fresh =>
    intro i s' there high
    obtain ⟨-, u, before, -⟩ := session i s' there
    have low := known.low before
    omega
  case sessions =>
    intro i s' there _
    obtain ⟨-, u, before, same⟩ := session i s' there
    exact ⟨u, before, fun cid did listed => by rw [same]; exact listed⟩
  case destinations =>
    intro did d' cid there member
    obtain ⟨d, here, type, consumers⟩ := closeSession_destination env t.1 found there
    refine ⟨d, here, type, by rw [consumers]; exact List.diff_sublist _ _, ?_⟩
    intro i u u' before after listed
    obtain ⟨-, v, same, equal⟩ := session i u' after
    rw [before] at same
    cases same
    rw [← equal]
    exact listed

theorem closeSession_rightful_iff {r : Run} (known : Known r) (rightful : Rightful r) (env : Env)
    (sid : Nat) (t : TransactionId) {s : Session} (found : r.world.sessions sid = some s) :
    Rightful (r.next (.closeSession env sid t)) ↔ ∀ did d, r.world.destinations did = some d →
      ∀ cid ∈ d.consumers, ∀ o, r.owner cid = some o → o.session = sid → o.default = false := by
  constructor
  · intro after did d here cid member o owner mine
    by_contra notExplicit
    have default : o.default = true := by simpa using notExplicit
    obtain ⟨d', there⟩ := closeSession_kept env t.1 found here
    obtain ⟨e, same, -, consumers⟩ := closeSession_destination env t.1 found there
    rw [here] at same
    cases same
    have stays : cid ∈ d'.consumers := by
      rw [consumers, (known.nodup did d here).mem_sdiff_iff]
      refine ⟨member, ?_⟩
      intro listed
      obtain ⟨c, member', key⟩ := List.mem_map.mp listed
      -- a session notes explicit consumers only
      have some := get_ne_none (List.mem_filter.mp member').1
      rw [key] at some
      obtain ⟨did', noted⟩ := Option.ne_none_iff_exists'.mp some
      obtain ⟨-, o', owner', explicit⟩ := known.mine sid s cid did' found noted
      rw [owner] at owner'
      cases owner'
      rw [default] at explicit
      cases explicit
    obtain ⟨o', owner', alive⟩ := after.live did d' there cid stays
    have same : r.owner cid = some o' := owner'
    rw [owner] at same
    cases same
    rw [mine] at alive
    exact alive (closeSession_sessions_same env t.1 found)
  · intro none
    refine (closeSession_leaves known env sid t found).rightful known rightful ?_
    intro did d' cid o there member owner before gone
    obtain ⟨d, here, -, consumers⟩ := closeSession_destination env t.1 found there
    rw [consumers, (known.nodup did d here).mem_sdiff_iff] at member
    obtain ⟨-, o', owner', -, noted⟩ := known.owned did d cid here member.1
    rw [owner] at owner'
    cases owner'
    by_cases mine : o.session = sid
    · -- an explicit consumer of the session is on its list
      have listed := noted (none did d here cid member.1 o owner mine) s (by rw [mine]; exact found)
      refine member.2 (List.mem_map.mpr ⟨(cid, did), List.mem_filter.mpr ⟨get_mem listed, ?_⟩, rfl⟩)
      simp
    · have same := closeSession_sessions_other env t.1 found mine
      rw [show (r.world.closeSession env sid t.1).sessions o.session = Option.none from gone,
        Option.map_none] at same
      exact before (Option.map_eq_none_iff.mp same.symm)

theorem createSession_leaves {r : Run} (known : Known r) (mode : AcknowledgeMode)
    (t : TransactionId) : Leaves r (r.next (.createSession mode t)) := by
  have session : ∀ i, i ≠ r.nextId →
      (r.next (.createSession mode t)).world.sessions i = r.world.sessions i :=
    fun i other => setSession_other _ _ other
  refine
    { later := Nat.le_succ _
      owner := fun _ _ => rfl
      named := ?named
      fresh := ?fresh
      sessions := ?sessions
      destinations := ?destinations }
  case named =>
    intro i beyond
    have high : r.nextId + 1 ≤ i := beyond
    rw [session i (by omega)]
    exact known.named i (by omega)
  case fresh =>
    intro i s' there high
    by_cases new : i = r.nextId
    · rw [new, show (r.next (.createSession mode t)).world.sessions r.nextId = _ from
        setSession_same _ _ _] at there
      cases there
      rfl
    · rw [session i new, known.named i high] at there
      cases there
  case sessions =>
    intro i s' there low
    rw [session i (by omega)] at there
    exact ⟨s', there, fun _ _ => id⟩
  case destinations =>
    intro did d' cid there member
    refine ⟨d', there, rfl, List.Sublist.refl _, ?_⟩
    intro i s s' before after listed
    rw [session i (Nat.ne_of_lt (known.low before)), before] at after
    cases after
    exact listed

theorem createSession_rightful {r : Run} (known : Known r) (rightful : Rightful r)
    (mode : AcknowledgeMode) (t : TransactionId) :
    Rightful (r.next (.createSession mode t)) := by
  refine (createSession_leaves known mode t).rightful known rightful ?_
  intro did d' cid o _ _ _ before
  obtain ⟨s, found⟩ := Option.ne_none_iff_exists'.mp before
  rw [show (r.next (.createSession mode t)).world.sessions o.session = _ from
    setSession_other _ _ (Nat.ne_of_lt (known.low found))]
  exact before

/- A call keeps what is known, and keeps every consumer rightful exactly under `condition`. -/
def Settles (r r' : Run) (condition : Prop) : Prop :=
  Known r' ∧ (Rightful r → (Rightful r' ↔ condition))

theorem Still.settles {r r' : Run} (still : Still r.world r'.world) (known : Known r)
    (later : r.nextId ≤ r'.nextId) (owner : ∀ cid < r.nextId, r'.owner cid = r.owner cid)
    {condition : Prop} (free : condition) : Settles r r' condition :=
  ⟨(still.leaves known later owner).known known,
    fun rightful => iff_of_true (still.rightful known later owner rightful) free⟩

theorem Still.to {r : Run} {w' : World} (still : Still r.world w') (known : Known r) :
    Settles r (r.to w') True :=
  Still.settles (show Still r.world (r.to w').world from still) known le_rfl (fun _ _ => rfl) trivial

theorem unused_settles {r : Run} (known : Known r) (sid : Nat) (default : Bool) {condition : Prop}
    (free : condition) : Settles r (r.owned sid default r.world) condition :=
  Still.settles (show Still r.world (r.owned sid default r.world).world from Still.refl r.world)
    known (Nat.le_succ _) (fun _ low => owned_old r sid default r.world low) free

theorem Joins.settles {r : Run} {sid did : Nat} {default : Bool} {stay : List Nat}
    {d' : Destination} {w' : World} (joins : Joins r sid did default stay d' w') (known : Known r)
    {condition : Prop}
    (same : (d'.isQueueFamily = true → ∀ cid ∈ stay, ∀ o, r.owner cid = some o →
      o.default = default) ↔ condition) : Settles r (r.owned sid default w') condition :=
  ⟨joins.known known, fun rightful => (joins.rightful_iff known rightful).trans same⟩

theorem createDestination_settles {r : Run} (known : Known r) (sid did : Nat)
    (type : DestinationType) : Settles r (r.next (.createDestination sid did type))
      (Careful r (.createDestination sid did type)) := by
  by_cases idle : r.world.sessions sid ≠ none →
      ((r.world.destinations did).getD { type := type }).isQueueFamily = false
  · have leaves := createDestination_leaves known idle
    refine ⟨leaves.known known, fun rightful => iff_of_true ?_ ?_⟩
    · exact leaves.rightful_same known rightful (createDestination_sessions _ _ _ _ _)
    · intro alive d here queue
      have topic := idle alive
      rw [here, Option.getD_some, queue] at topic
      cases topic
  · obtain ⟨alive, queue⟩ := Classical.not_imp.mp idle
    have queue : ((r.world.destinations did).getD { type := type }).isQueueFamily = true := by
      simpa using queue
    obtain ⟨s, found⟩ := Option.ne_none_iff_exists'.mp alive
    have joins := createDestination_joins known found queue
    refine joins.settles known ?_
    have family : (((r.world.destinations did).getD { type := type }).createDefaultConsumer r.nextId
        s.mode).isQueueFamily = true := by
      simp only [Destination.createDefaultConsumer, queue, if_true]
      exact queue
    cases here : r.world.destinations did with
    | none => simp [Careful, here]
    | some d =>
      rw [here, Option.getD_some] at queue family
      simp [Careful, here, alive, queue, family]

theorem createConsumer_settles {r : Run} (known : Known r) (env : Env) (sid did : Nat)
    (selector : Option Selector) : Settles r (r.next (.createConsumer env sid did selector))
      (Careful r (.createConsumer env sid did selector)) := by
  show Settles r (r.owned sid false (r.world.createConsumer env sid did r.nextId selector)) _
  unfold World.createConsumer
  cases found : r.world.sessions sid with
  | none =>
    refine unused_settles known sid false ?_
    intro alive
    exact absurd found alive
  | some s =>
    cases here : r.world.destinations did with
    | none =>
      refine unused_settles known sid false ?_
      intro _ d there
      rw [here] at there
      cases there
    | some d =>
      have joins := explicit_joins known found here
        (fun d => d.createConsumer env r.nextId s.mode selector)
        (createConsumer_consumers env d r.nextId s.mode selector) (staying_sublist d)
      refine joins.settles known ?_
      rw [queueFamily_of_type (createConsumer_type env d r.nextId s.mode selector)]
      have distinct := known.nodup did d here
      constructor
      · intro kind _ e there queue cid member o owner default
        rw [here] at there
        cases there
        by_contra other
        have explicit := kind queue cid ((mem_staying distinct queue).mpr ⟨member, other⟩) o owner
        rw [default] at explicit
        cases explicit
      · intro careful queue cid stays o owner
        obtain ⟨member, other⟩ := (mem_staying distinct queue).mp stays
        by_contra notExplicit
        have default : o.default = true := by simpa using notExplicit
        exact other (careful (by simp [found]) d here queue cid member o owner default)

/- On a topic there are no default consumers. -/
theorem createDurableConsumer_settles {r : Run} (known : Known r) (env : Env) (sid did : Nat)
    (clientID name : Text) (selector : Option Selector) :
    Settles r (r.next (.createDurableConsumer env sid did clientID name selector)) True := by
  show Settles r (r.owned sid false
    (World.createDurableConsumer env r.world sid did r.nextId clientID name selector)) _
  unfold World.createDurableConsumer
  cases found : r.world.sessions sid with
  | none => exact unused_settles known sid false trivial
  | some s =>
    cases here : r.world.destinations did with
    | none => exact unused_settles known sid false trivial
    | some d =>
      dsimp only
      split
      · exact unused_settles known sid false trivial
      · next ok =>
        obtain ⟨topic, consumers⟩ :=
          createDurableConsumer_ok env d r.nextId s.mode clientID name selector ok
        have joins := explicit_joins known found here
          (fun d => (d.createDurableConsumer env r.nextId s.mode clientID name selector).1)
          consumers (List.Sublist.refl _)
        refine joins.settles known (iff_of_true ?_ trivial)
        intro queue
        rw [topic] at queue
        cases queue

theorem closeSession_settles {r : Run} (known : Known r) (env : Env) (sid : Nat)
    (t : TransactionId) : Settles r (r.next (.closeSession env sid t))
      (Careful r (.closeSession env sid t)) := by
  cases found : r.world.sessions sid with
  | none =>
    have same : (r.next (.closeSession env sid t)).world = r.world := by
      show r.world.closeSession env sid t.1 = r.world
      simp [World.closeSession, found]
    have still : Still r.world (r.next (.closeSession env sid t)).world := by
      rw [same]
      exact Still.refl r.world
    exact still.settles known le_rfl (fun _ _ => rfl) (fun alive => absurd found alive)
  | some s =>
    refine ⟨(closeSession_leaves known env sid t found).known known, fun rightful => ?_⟩
    rw [closeSession_rightful_iff known rightful env sid t found]
    simp [Careful, found]

theorem next_settles (r : Run) (a : Act) (known : Known r) : Settles r (r.next a) (Careful r a) := by
  cases a with
  | createSession mode t =>
    exact ⟨(createSession_leaves known mode t).known known,
      fun rightful => iff_of_true (createSession_rightful known rightful mode t) trivial⟩
  | createDestination sid did type => exact createDestination_settles known sid did type
  | createConsumer env sid did selector => exact createConsumer_settles known env sid did selector
  | createDurableConsumer env sid did clientID name selector =>
    exact createDurableConsumer_settles known env sid did clientID name selector
  | deleteConsumer sid cid =>
    have leaves := deleteConsumer_leaves known sid cid
    refine ⟨leaves.known known, fun rightful => iff_of_true ?_ trivial⟩
    exact leaves.rightful known rightful fun _ _ _ _ _ _ _ before =>
      deleteConsumer_alive r.world sid cid before
  | unsubscribe did clientID name =>
    have leaves := unsubscribe_leaves known did clientID name
    exact ⟨leaves.known known, fun rightful => iff_of_true
      (leaves.rightful_same known rightful (onDestination_sessions _ _ _)) trivial⟩
  | createProducer sid did =>
    have still : Still r.world (r.next (.createProducer sid did)).world :=
      createProducer_still r.world sid did r.nextId
    exact still.settles known (Nat.le_succ _) (fun _ _ => rfl) trivial
  | deleteProducer env sid pid => exact (deleteProducer_still env r.world sid pid).to known
  | send env sid pid m => exact (Alike.still (send_alike env r.world sid pid m)).to known
  | sendWith env sid pid m opts =>
    exact (Alike.still (sendWith_alike env r.world sid pid m opts)).to known
  | commit env sid t => exact (commit_still env r.world sid t.1).to known
  | commitThrows env sid done left =>
    exact (throws_still r.world sid done left (commitPart_alike env)).to known
  | rollback env sid t => exact (rollback_still env r.world sid false t.1).to known
  | rollbackThrows env sid done left =>
    exact (throws_still r.world sid done left (rollbackPart_alike env false)).to known
  | recover env sid => exact (Alike.still (recover_alike env r.world sid)).to known
  | closeSession env sid t => exact closeSession_settles known env sid t

/-- Every state of a run has only consumers of live sessions, and no default consumer beside an
    explicit one on a queue, exactly when every step of the run is careful. -/
theorem consumers_rightful (acts : List Act) :
    (∀ r ∈ states Run.next {} acts, Rightful r) ↔ Meets Run.next Careful {} acts :=
  invariant_iff (fun r a known => (next_settles r a known).1)
    (fun r a known rightful => (next_settles r a known).2 rightful) known_start rightful_start

def abandoned : List Act :=
  [.createSession .AUTO_ACKNOWLEDGE someId, .createDestination 0 5 .Queue,
    .closeSession calm 0 someId]

def askedAgain : List Act :=
  [.createSession .AUTO_ACKNOWLEDGE someId, .createDestination 0 5 .Queue,
    .createConsumer calm 0 5 none, .createDestination 0 5 .Queue]

theorem default_consumers_stay :
    (∃ r ∈ states Run.next {} abandoned, ∃ d, r.world.destinations 5 = some d ∧
      1 ∈ d.consumers ∧ r.owner 1 = some ⟨0, true⟩ ∧ r.world.sessions 0 = none) ∧
    (∃ r ∈ states Run.next {} askedAgain, ∃ d, r.world.destinations 5 = some d ∧
      d.isQueueFamily = true ∧ 2 ∈ d.consumers ∧ 3 ∈ d.consumers ∧
      r.owner 2 = some ⟨0, false⟩ ∧ r.owner 3 = some ⟨0, true⟩) ∧
    ¬ ∀ acts, ∀ r ∈ states Run.next {} acts, Rightful r := by
  have left : ∃ r ∈ states Run.next {} abandoned, ∃ d, r.world.destinations 5 = some d ∧
      1 ∈ d.consumers ∧ r.owner 1 = some ⟨0, true⟩ ∧ r.world.sessions 0 = none :=
    ⟨_, last_state_mem _ _ _, _, rfl, by decide, by decide, rfl⟩
  refine ⟨left, ⟨_, last_state_mem _ _ _, _, rfl, rfl, by decide, by decide,
    by decide, by decide⟩, ?_⟩
  intro always
  obtain ⟨r, member, d, here, listed, owner, gone⟩ := left
  obtain ⟨o, same, alive⟩ := (always abandoned r member).live 5 d here 1 listed
  rw [owner] at same
  cases same
  exact alive gone

end TinyMqConsumerOwners
