import TinyMq.Lib.Machines
import TinyMq.Broker.Records

/-!
Whether a queue always has a consumer to push to. The default consumer leaves
with the first real one, and nothing brings it back when that one is deleted, by
hand or by the end of its session: from then on `save` drops what it is given.
-/
namespace TinyMqQueueSink
open DelimitedText AssocLists Machines TombstoneLog TinyMqTom TinyMqMessage TinyMqStore
open TinyMqDestination TinyMqSession TinyMqFrames TinyMqRecords

/-- The sessions of an exchange, and the next identity the uuid generator gives. -/
structure Broker where
  world : World := {}
  next : Nat := 0

inductive Op where
  | createSession (mode : AcknowledgeMode) (suffix : Text)
  | createDestination (sid did : Nat) (type : DestinationType)
  | createConsumer (env : Env) (sid did : Nat) (selector : Option Selector)
  | deleteConsumer (sid cid : Nat)
  | createProducer (sid did : Nat)
  | send (env : Env) (sid pid : Nat) (m : Message)
  | closeSession (env : Env) (sid : Nat) (suffix : Text)
  | rehash (did : Nat) (consumers : List Nat)

def step (b : Broker) : Op → Broker
  | .createSession mode suffix => ⟨b.world.createSession b.next mode suffix,b.next + 1⟩
  | .createDestination sid did type => ⟨b.world.createDestination sid did type b.next,b.next + 1⟩
  | .createConsumer env sid did selector =>
    ⟨b.world.createConsumer env sid did b.next selector,b.next + 1⟩
  | .deleteConsumer sid cid => { b with world := b.world.deleteConsumer sid cid }
  | .createProducer sid did => ⟨b.world.createProducer sid did b.next,b.next + 1⟩
  | .send env sid pid m => { b with world := b.world.send env sid pid m }
  | .closeSession env sid suffix => { b with world := b.world.closeSession env sid suffix }
  | .rehash did consumers =>
    { b with world := b.world.onDestination did fun d => d.rehash consumers }

/-- Whoever deletes consumers of a queue leaves one that it does not delete. -/
def Leaves (b : Broker) : Op → Prop
  | .deleteConsumer sid cid => ∀ s did d, b.world.sessions sid = some s →
      get s.consumers cid = some did → b.world.destinations did = some d →
      d.isQueueFamily = true → ∃ other ∈ d.consumers, other ≠ cid
  | .closeSession _ sid _ => ∀ s did d, b.world.sessions sid = some s →
      b.world.destinations did = some d → d.isQueueFamily = true →
      ∃ other ∈ d.consumers, (other, did) ∉ s.consumers
  | _ => True

def Unselective (d : Destination) : Prop :=
  ∀ cid c, d.consumers.head? = some cid → get d.objects cid = some c → c.selector = none

structure HasSink (d : Destination) : Prop where
  registered : d.consumers ≠ []
  dereferenceable : d.producerSafe
  stored : ∀ env pid p m, get d.producers pid = some p →
    (prepared env p [] m).isPersistent = true → Unselective d → (d.stores .shared).good = true →
    env.appendFails .shared (d.stores .shared).log.length = false →
    ∃ cid ∈ d.consumers, ((d.send env pid [] m).1.stores .shared).log = (d.stores .shared).log ++
      [⟨(pushCopy env 0 d.messageCounter cid (prepared env p [] m)).uuid,
        (pushCopy env 0 d.messageCounter cid (prepared env p [] m)).content,false⟩]

/-- A destination whose consumers are there, with identities below the next one. -/
structure Registered (next : Nat) (d : Destination) : Prop where
  distinct : d.consumers.Nodup
  below : ∀ cid ∈ d.consumers, cid < next
  objects : d.isQueueFamily = true →
    ∀ cid ∈ d.consumers, ∃ c, get d.objects cid = some c ∧ c.storage = .shared

theorem Registered.steady {next : Nat} {d d' : Destination} (reg : Registered next d)
    (steady : Steady d d') : Registered next d' where
  distinct := by
    rw [steady.consumers]
    exact reg.distinct
  below := by
    rw [steady.consumers]
    exact reg.below
  objects := by
    intro queue cid member
    rw [steady.queueFamily] at queue
    rw [steady.consumers] at member
    obtain ⟨c, object, shared⟩ := reg.objects queue cid member
    obtain ⟨c', object', same⟩ := steady.found object
    simp only [settings, Prod.mk.injEq] at same
    exact ⟨c', object', by rw [same.2.2.1, shared]⟩

theorem Registered.later {next : Nat} {d : Destination} (reg : Registered next d) :
    Registered (next + 1) d where
  distinct := reg.distinct
  below := fun cid member => Nat.lt_succ_of_lt (reg.below cid member)
  objects := reg.objects

theorem Registered.stored {next : Nat} {d : Destination} (reg : Registered next d)
    (queue : d.isQueueFamily = true) (sink : d.consumers ≠ []) : HasSink d where
  registered := sink
  dereferenceable := fun _ => sink
  stored := by
    intro env pid p m found persistent open_ good works
    obtain ⟨cid, rest, shape⟩ := List.exists_cons_of_ne_nil sink
    obtain ⟨c, object, shared⟩ := reg.objects queue cid (by simp [shape])
    have free : c.selector = none := open_ cid c (by simp [shape]) object
    have records : sendRecords env d (prepared env p [] m) =
        [(.shared, (pushCopy env 0 d.messageCounter cid (prepared env p [] m)).uuid,
          (pushCopy env 0 d.messageCounter cid (prepared env p [] m)).content)] := by
      simp [sendRecords, offlineRecords, queue_notTopic queue, Destination.targets, queue, shape, pushRecords,
        object, accepts, free, persistent, shared]
    have sent := send_appends env found m
    refine ⟨cid, by simp [shape], ?_⟩
    rw [sent.stores, appendAll_at, records]
    simp only [recordsFor, decide_true, List.filter_cons_of_pos, List.filter_nil, List.map_cons,
      List.map_nil]
    refine (appends_stored good ?_).1
    intro i inside
    have zero : i = 0 := by simpa using inside
    rw [zero]
    exact works

theorem dropDefault_registered {next : Nat} {d : Destination} (reg : Registered next d) :
    Registered next d.dropDefault := by
  unfold Destination.dropDefault
  split
  · exact reg
  · rename_i old _
    refine ⟨reg.distinct.erase old, ?_, ?_⟩
    · intro cid member
      exact reg.below cid (List.mem_of_mem_erase member)
    · intro queue cid member
      have other : cid ≠ old := (List.Nodup.mem_erase_iff reg.distinct).mp member |>.1
      simp only [get_erase_other d.objects other]
      exact reg.objects queue cid (List.mem_of_mem_erase member)

theorem Registered.join {next : Nat} {d d' : Destination} (reg : Registered next d) {c : Consumer}
    (type : d'.type = d.type) (consumers : d'.consumers = d.consumers ++ [next])
    (objects : d'.objects = put d.objects next c)
    (shared : d.isQueueFamily = true → c.storage = .shared) : Registered (next + 1) d' := by
  have new : next ∉ d.consumers := fun member => Nat.lt_irrefl next (reg.below next member)
  refine ⟨?_, ?_, ?_⟩
  · rw [consumers]
    exact List.nodup_append.mpr ⟨reg.distinct, by simp, by
      intro cid member last added
      rw [List.mem_singleton.mp added]
      intro same
      exact new (same ▸ member)⟩
  · intro cid member
    rw [consumers] at member
    rcases List.mem_append.mp member with old | added
    · exact Nat.lt_succ_of_lt (reg.below cid old)
    · rw [List.mem_singleton.mp added]
      exact Nat.lt_succ_self next
  · intro queue cid member
    have queue' : d.isQueueFamily = true := by
      rw [← queue]
      simp [Destination.isQueueFamily, type]
    rw [objects]
    rw [consumers] at member
    by_cases here : cid = next
    · rw [here]
      exact ⟨c, get_put_same _ _ _, shared queue'⟩
    · rcases List.mem_append.mp member with old | added
      · rw [get_put_other d.objects _ here]
        exact reg.objects queue' cid old
      · exact absurd (List.mem_singleton.mp added) here

theorem createDefaultConsumer_registered {next : Nat} {d : Destination} (reg : Registered next d)
    (mode : AcknowledgeMode) : Registered (next + 1) (d.createDefaultConsumer next mode) := by
  unfold Destination.createDefaultConsumer
  split
  · exact reg.join rfl rfl rfl fun _ => rfl
  · exact reg.later

theorem createConsumer_registered {next : Nat} {d : Destination} (reg : Registered next d)
    (env : Env) (mode : AcknowledgeMode) (selector : Option Selector) :
    Registered (next + 1) (d.createConsumer env next mode selector) := by
  unfold Destination.createConsumer
  split
  · have dropped := dropDefault_registered reg
    dsimp only
    split
    · have replayed := replayFromStorage_same env (d.dropDefault.setObject next
        ⟨mode,.shared,.shared,selector,[],.empty,[]⟩) .shared .shared
      exact dropped.join replayed.type (by rw [replayed.consumers]; rfl)
        (by rw [replayed.objects]; rfl) fun _ => rfl
    · exact dropped.join rfl rfl rfl fun _ => rfl
  · exact reg.join rfl rfl rfl fun _ => rfl

theorem deleteConsumer_registered {next : Nat} {d : Destination} (reg : Registered next d)
    (cid : Nat) : Registered next (d.deleteConsumer cid) := by
  have erased : Registered next { d with consumers := d.consumers.erase cid } :=
    ⟨reg.distinct.erase cid, fun i member => reg.below i (List.mem_of_mem_erase member),
      fun queue i member => reg.objects queue i (List.mem_of_mem_erase member)⟩
  unfold Destination.deleteConsumer
  dsimp only
  split
  · exact erased
  · exact ⟨erased.distinct, erased.below, erased.objects⟩

theorem deleteConsumer_consumers (d : Destination) (cid : Nat) :
    (d.deleteConsumer cid).consumers = d.consumers.erase cid ∧
      (d.deleteConsumer cid).isQueueFamily = d.isQueueFamily := by
  unfold Destination.deleteConsumer
  dsimp only
  split <;> exact ⟨rfl, rfl⟩

theorem rehash_registered {next : Nat} {d : Destination} (reg : Registered next d) (l : List Nat) :
    Registered next (d.rehash l) := by
  unfold Destination.rehash
  split
  · rename_i perm
    exact ⟨perm.nodup_iff.mpr reg.distinct, fun cid member => reg.below cid (perm.mem_iff.mp member),
      fun queue cid member => reg.objects queue cid (perm.mem_iff.mp member)⟩
  · exact reg

structure Served (next : Nat) (d : Destination) : Prop where
  registered : Registered next d
  sink : d.isQueueFamily = true → d.consumers ≠ []

/-- The same, and one of the consumers is none of the session's. -/
structure Sheltered (next : Nat) (s : Session) (did : Nat) (d : Destination) : Prop where
  registered : Registered next d
  other : d.isQueueFamily = true → ∃ cid ∈ d.consumers, (cid, did) ∉ s.consumers

theorem Served.steady {next : Nat} {d d' : Destination} (served : Served next d)
    (steady : Steady d d') : Served next d' where
  registered := served.registered.steady steady
  sink := by
    rw [steady.queueFamily, steady.consumers]
    exact served.sink

theorem Sheltered.steady {next : Nat} {s : Session} {did : Nat} {d d' : Destination}
    (sheltered : Sheltered next s did d) (steady : Steady d d') : Sheltered next s did d' where
  registered := sheltered.registered.steady steady
  other := by
    rw [steady.queueFamily, steady.consumers]
    exact sheltered.other

theorem Sheltered.served {next : Nat} {s : Session} {did : Nat} {d : Destination}
    (sheltered : Sheltered next s did d) : Served next d where
  registered := sheltered.registered
  sink := by
    intro queue
    obtain ⟨cid, member, _⟩ := sheltered.other queue
    exact List.ne_nil_of_mem member

theorem Sheltered.delete {next : Nat} {s : Session} {did : Nat} {d : Destination}
    (sheltered : Sheltered next s did d) {cid : Nat} (mine : (cid, did) ∈ s.consumers) :
    Sheltered next s did (d.deleteConsumer cid) where
  registered := deleteConsumer_registered sheltered.registered cid
  other := by
    obtain ⟨consumers, family⟩ := deleteConsumer_consumers d cid
    rw [consumers, family]
    intro queue
    obtain ⟨other, member, foreign⟩ := sheltered.other queue
    have apart : other ≠ cid := by
      intro same
      rw [same] at foreign
      exact foreign mine
    exact ⟨other, (List.mem_erase_of_ne apart).mpr member, foreign⟩

theorem closeSession_served {w : World} {next sid : Nat} (all : Everywhere (fun _ => Served next) w)
    (leaves : ∀ s did d, w.sessions sid = some s → w.destinations did = some d →
      d.isQueueFamily = true → ∃ other ∈ d.consumers, (other, did) ∉ s.consumers)
    (env : Env) (suffix : Text) :
    Everywhere (fun _ => Served next) (w.closeSession env sid suffix) := by
  unfold World.closeSession
  split
  · exact all
  · rename_i s session
    have start : Everywhere (Sheltered next s) w := fun did d here =>
      ⟨(all did d here).registered, leaves s did d session here⟩
    have rolled := everywhere_rollback (fun _ _ _ holds steady => holds.steady steady) start env sid
      true suffix
    have consumers : Everywhere (Sheltered next s) (s.consumers.foldl
        (fun w c => w.onDestination c.2 fun d => d.deleteConsumer c.1)
        (w.rollback env sid true suffix)) := by
      refine everywhere_fold ?_ rolled
      intro w' c member before
      exact everywhere_on before fun d _ holds => holds.delete member
    have producers : Everywhere (Sheltered next s) (s.producers.foldl
        (fun w p => w.onDestination p.2 fun d => d.deleteProducer env p.1 suffix)
        (s.consumers.foldl (fun w c => w.onDestination c.2 fun d => d.deleteConsumer c.1)
          (w.rollback env sid true suffix))) := by
      refine everywhere_fold ?_ consumers
      intro w' p _ before
      exact everywhere_on before fun d _ holds =>
        holds.steady (deleteProducer_same env d p.1 suffix).steady
    exact fun did d here => (producers did d here).served

theorem createDestination_served {w : World} {next : Nat}
    (all : Everywhere (fun _ => Served next) w) (sid did : Nat) (type : DestinationType) :
    Everywhere (fun _ => Served (next + 1)) (w.createDestination sid did type next) := by
  have later : Everywhere (fun _ => Served (next + 1)) w := fun i d here =>
    ⟨(all i d here).registered.later, (all i d here).sink⟩
  unfold World.createDestination
  split
  · exact later
  · rename_i s _
    intro i e found
    by_cases same : i = did
    · subst same
      simp only [Function.update_self, Option.some.injEq] at found
      have reg : Registered next ((w.destinations i).getD { type := type }) := by
        cases here : w.destinations i with
        | none => exact ⟨List.nodup_nil, by simp, by simp⟩
        | some d => exact (all i d here).registered
      rw [← found]
      refine ⟨createDefaultConsumer_registered reg s.mode, ?_⟩
      unfold Destination.createDefaultConsumer
      split
      · exact fun _ => by simp
      · exact fun queue => absurd queue ‹_›
    · simp only [Function.update_of_ne same] at found
      exact later i e found

theorem createConsumer_sink (env : Env) (d : Destination) (id : Nat) (mode : AcknowledgeMode)
    (selector : Option Selector) : (d.createConsumer env id mode selector).consumers ≠ [] := by
  unfold Destination.createConsumer
  split <;> simp

theorem deleteConsumer_served {next : Nat} {d : Destination} (served : Served next d) {cid : Nat}
    (leaves : d.isQueueFamily = true → ∃ other ∈ d.consumers, other ≠ cid) :
    Served next (d.deleteConsumer cid) where
  registered := deleteConsumer_registered served.registered cid
  sink := by
    obtain ⟨consumers, family⟩ := deleteConsumer_consumers d cid
    rw [consumers, family]
    intro queue
    obtain ⟨other, member, apart⟩ := leaves queue
    exact List.ne_nil_of_mem ((List.mem_erase_of_ne apart).mpr member)

theorem rehash_served {next : Nat} {d : Destination} (served : Served next d) (l : List Nat) :
    Served next (d.rehash l) where
  registered := rehash_registered served.registered l
  sink := by
    unfold Destination.rehash
    split
    · rename_i perm
      intro queue empty
      have empty' : l = [] := empty
      rw [empty'] at perm
      exact served.sink queue perm.nil_eq.symm
    · exact served.sink

theorem step_served (b : Broker) (op : Op) (all : Everywhere (fun _ => Served b.next) b.world)
    (leaves : Leaves b op) : Everywhere (fun _ => Served (step b op).next) (step b op).world := by
  have later : Everywhere (fun _ => Served (b.next + 1)) b.world := fun i d here =>
    ⟨(all i d here).registered.later, (all i d here).sink⟩
  cases op with
  | createSession mode suffix => exact later
  | createDestination sid did type => exact createDestination_served all sid did type
  | createConsumer env sid did selector =>
    simp only [step, World.createConsumer]
    split
    · rename_i s _ _ _
      refine everywhere_on (P := fun _ => Served (b.next + 1)) later ?_
      intro d here _
      exact ⟨createConsumer_registered (all did d here).registered env s.mode selector,
        fun _ => createConsumer_sink env d b.next s.mode selector⟩
    · exact later
  | deleteConsumer sid cid =>
    simp only [step, World.deleteConsumer]
    split
    · exact all
    · rename_i s session
      split
      · exact all
      · rename_i did mine
        refine everywhere_on (P := fun _ => Served b.next) all ?_
        intro d here served
        exact deleteConsumer_served served (leaves s did d session mine here)
  | createProducer sid did =>
    simp only [step, World.createProducer]
    split
    · refine everywhere_on (P := fun _ => Served (b.next + 1)) later ?_
      intro d _ served
      exact served.steady (createProducer_same d _ _).steady
    · exact later
  | send env sid pid m =>
    simp only [step, World.send]
    split
    · exact all
    · rename_i s _
      split
      · exact all
      · refine everywhere_on (P := fun _ => Served b.next) all ?_
        intro d _ served
        exact served.steady (send_same env d pid s.suffix m).steady
  | closeSession env sid suffix => exact closeSession_served all leaves env suffix
  | rehash did l =>
    exact everywhere_on (P := fun _ => Served b.next) all fun d _ served => rehash_served served l

/- In every run that never deletes the last consumer of a queue, every queue has its sink. -/
theorem queue_keeps_sink (ops : List Op) (leaves : Meets step Leaves {} ops) :
    ∀ b ∈ states step {} ops, ∀ did d, b.world.destinations did = some d →
      d.isQueueFamily = true → HasSink d := by
  have start : Everywhere (fun _ => Served ({} : Broker).next) ({} : Broker).world := by
    intro i d here
    cases here
  have along := invariant_along step_served start leaves
  intro b member did d here queue
  have served := along b member did d here
  exact served.registered.stored queue (served.sink queue)

def letterRun : List Op :=
  [.createSession .AUTO_ACKNOWLEDGE [], .createDestination 0 7 .Queue,
    .createConsumer calm 0 7 none, .createProducer 0 7, .send calm 0 3 (letter 0 7)]

theorem queue_keeps_sink_letter :
    Meets step Leaves {} letterRun ∧ ∃ d, ((letterRun.foldl step {}).world.destinations 7) = some d ∧
      HasSink d := by
  have leaves : Meets step Leaves {} letterRun := ⟨trivial, trivial, trivial, trivial, trivial, trivial⟩
  exact ⟨leaves, _, rfl, queue_keeps_sink letterRun leaves _ (last_state_mem step {} letterRun) 7 _
    rfl rfl⟩

/- The session's only consumer has replaced the default one; its deletion leaves none. -/
theorem deleted_consumer_no_sink :
    ∃ d, (([.createSession .AUTO_ACKNOWLEDGE [], .createDestination 0 7 .Queue,
        .createConsumer calm 0 7 none, .deleteConsumer 0 2] : List Op).foldl step
          {}).world.destinations 7 = some d ∧
      d.isQueueFamily = true ∧ d.consumers = [] ∧ ¬ d.producerSafe ∧ ¬ HasSink d := by
  refine ⟨_, rfl, rfl, rfl, ?_, ?_⟩
  · intro safe
    exact safe rfl rfl
  · intro sink
    exact sink.registered rfl

end TinyMqQueueSink
