import ReactNativeIroh.Core.GossipBooks

/-!
# The events of a subscription and its end

Every broadcast is answered once, with what became of its message, and the host gets the
events of the topic in order (`gossip_topic_law`).  A topic whose task is parked goes quiet
exactly when it has called `on_start` and nothing refers to the subscription any more, or an
error of the stream is next: a broadcast that is under way keeps the events coming
(`quiet_iff_dropped`).
-/

namespace Iroh.Core

open Transition

namespace GossipTopic

variable {handle : UInt64} {max : ℕ} {x y : GossipTopic} {f : ForwardTask} {i : ℕ}
  {a : TopicAction}

/-! ## The events -/

/-- What the forwarding task is calling. -/
def inFlight (x : GossipTopic) : List GossipCall := (x.forward.map ForwardTask.inFlight).getD []

/-- What holds of the join, the forwarding task and the callbacks. -/
structure Events (x : GossipTopic) : Prop where
  born : x.sub = none ↔ x.join ≠ .registered ∧ x.join ≠ .started
  spawned : x.forward = none ↔ x.join = .joining ∨ x.join = .failed
  /-- `on_start` is called once, and the failure of the join is all there is of it. -/
  starts : x.log.countP TopicCall.isStart = if x.join = .started then 1 else 0
  fails : x.join = .failed → ∃ e, x.log = [.joinFailed ("error " ++ e)]
  joins : x.join = .joining → x.log = []
  unspawned : x.forward = none → x.read = []
  unborn : x.sub = none → x.handed = []
  forwards : x.delivered ++ x.inFlight = x.read.filterMap gossipSubscribe.forward

theorem delivered_call (c : TopicCall) :
    (x.call c).delivered = x.delivered ++ c.forwarded?.toList := by
  rw [delivered, call, List.filterMap_append, ← delivered]
  cases hc : c.forwarded? <;> simp [hc]

theorem countP_call (c : TopicCall) :
    (x.call c).log.countP TopicCall.isStart =
      x.log.countP TopicCall.isStart + c.isStart.toNat := by
  rw [call, List.countP_append, List.countP_singleton]
  cases c.isStart <;> rfl

/-- A step of the forwarding task, which is spawned after the join. -/
theorem Events.forward (h : x.Events) (hf : x.forward = some f) (hs : ForwardSteps x f y) :
    y.Events := by
  obtain ⟨hsub, -, -, -, hhanded, hjoin, hsome⟩ := hs.books
  have hjoined : ¬ (x.join = .joining ∨ x.join = .failed) := fun hn => by
    have := h.spawned.2 hn
    rw [hf] at this
    cases this
  have hspawned : y.forward ≠ none := by
    intro hn
    rw [hn] at hsome
    cases hsome
  have hforwards := h.forwards
  rw [inFlight, hf] at hforwards
  refine ⟨by rw [hsub, hjoin]; exact h.born, ?spawned, ?starts, ?fails, ?joins,
    fun hn => absurd hn hspawned, by rw [hsub, hhanded]; exact h.unborn, ?forwards⟩
  case spawned =>
    rw [hjoin]
    exact ⟨fun hn => absurd hn hspawned, fun hn => absurd hn hjoined⟩
  case fails => exact fun hn => absurd (.inr (hjoin.symm.trans hn)) hjoined
  case joins => exact fun hn => absurd (.inl (hjoin.symm.trans hn)) hjoined
  case starts =>
    rw [hjoin, ← h.starts]
    cases hs with
    | call c => exact countP_call (.forwarded c)
    | poll | next | error | park | drop | finish => rfl
  case forwards =>
    cases hs with
    | poll | park | drop | finish => exact hforwards
    | call c =>
        rw [delivered_call]
        exact (List.append_nil _).trans hforwards
    | next he hforward =>
        show x.delivered ++ [_] = (x.read ++ [_]).filterMap _
        rw [List.filterMap_append, ← hforwards]
        show _ = x.delivered ++ [] ++ _
        simp [hforward]
    | error he hforward =>
        show x.delivered ++ [] = (x.read ++ [_]).filterMap _
        rw [List.filterMap_append, ← hforwards]
        show _ = x.delivered ++ [] ++ _
        simp [hforward]

theorem BroadcastSteps.pending {b : Broadcast} (hs : BroadcastSteps max x i b y) :
    y.events = x.events := by
  cases hs with
  | refuse | spawn | send | fail | complete | leave => rfl

theorem BroadcastSteps.events {b : Broadcast} (hs : BroadcastSteps max x i b y) :
    y.join = x.join ∧ y.forward = x.forward ∧ y.read = x.read ∧ y.log = x.log ∧
      (y.sub = none → x.sub = none) := by
  cases hs with
  | refuse | spawn | complete => exact ⟨rfl, rfl, rfl, rfl, id⟩
  | send | fail | leave => exact ⟨rfl, rfl, rfl, rfl, Option.map_eq_none_iff.mp⟩

/-- A step that leaves the join and the forwarding task alone. -/
theorem Events.congr (h : x.Events) (hsub : y.sub = none ↔ x.sub = none) (hjoin : y.join = x.join)
    (hforward : y.forward = x.forward) (hread : y.read = x.read) (hlog : y.log = x.log)
    (hhanded : y.sub = none → y.handed = []) : y.Events := by
  have hdelivered : y.delivered = x.delivered := by rw [delivered, hlog, delivered]
  have hinflight : y.inFlight = x.inFlight := by rw [inFlight, hforward, inFlight]
  refine ⟨?_, ?_, ?_, ?_, ?_, ?_, hhanded, ?_⟩
  · rw [hsub, hjoin]
    exact h.born
  · rw [hforward, hjoin]
    exact h.spawned
  · rw [hlog, hjoin]
    exact h.starts
  · rw [hjoin, hlog]
    exact h.fails
  · rw [hjoin, hlog]
    exact h.joins
  · rw [hforward, hread]
    exact h.unspawned
  · rw [hdelivered, hinflight, hread]
    exact h.forwards

theorem Events.step (h : x.Events) (hb : x.Books handle max) (hs : Steps handle max x a y) :
    y.Events := by
  cases hs with
  | forward hf hs => exact h.forward hf hs
  | unsubscribed => exact h
  | arrive | unknown => exact h.congr Iff.rfl rfl rfl rfl rfl h.unborn
  | lookUp _ hr => exact h.congr (by simp [hr]) rfl rfl rfl rfl nofun
  | unsubscribe hr => exact h.congr (by simp [hr]) rfl rfl rfl rfl nofun
  | closerLeaves =>
      exact h.congr Option.map_eq_none_iff rfl rfl rfl rfl fun hn =>
        h.unborn (Option.map_eq_none_iff.mp hn)
  | broadcast _ hi hs =>
      obtain ⟨hjoin, hforward, hread, hlog, hsub⟩ := hs.events
      obtain ⟨b', hm, -⟩ := hs.moves hb hi
      have hsub' : y.sub = none ↔ x.sub = none := by
        refine ⟨hsub, fun hn => ?_⟩
        rcases hm.sub with ⟨hsame, -⟩ | ⟨hleave, -, -⟩
        · exact hsame.trans hn
        · rw [hleave, hn]
          rfl
      refine h.congr hsub' hjoin hforward hread hlog fun hn => ?_
      -- Without a subscription no broadcast has anything to hand over.
      rcases hm.handed.2 with ⟨hsame, -⟩ | ⟨-, hfree, htaken⟩
      · exact hsame.trans (h.unborn (hsub hn))
      · cases hs with
        | send hp =>
            obtain ⟨r, hr, -⟩ := hb.refers hi (by rw [Broadcast.refers, hp])
            rw [hsub hn] at hr
            cases hr
        | refuse | spawn | fail | complete | leave => exact h.unborn (hsub hn)
  | joined hj =>
      have hnone : x.forward = none := h.spawned.2 (.inl hj)
      have hstarts := h.starts
      rw [h.joins hj] at hstarts
      have hread := h.unspawned hnone
      refine ⟨?_, by simp [put], ?_, nofun, nofun, nofun, h.unborn, ?_⟩
      · have := h.born
        rw [hj] at this
        simpa [put] using this
      · show x.log.countP TopicCall.isStart = 0
        rw [h.joins hj]
        rfl
      · show x.delivered ++ [] = x.read.filterMap _
        rw [delivered, h.joins hj, hread]
        rfl
  | failed e hj =>
      have hnone : x.forward = none := h.spawned.2 (.inl hj)
      have hread := h.unspawned hnone
      refine ⟨?_, by simp [hnone, call], ?_, fun _ => ⟨e, ?_⟩, nofun, h.unspawned, h.unborn, ?_⟩
      · have := h.born
        rw [hj] at this
        simpa [call] using this
      · show (x.log ++ [_]).countP TopicCall.isStart = 0
        rw [h.joins hj]
        rfl
      · show x.log ++ [_] = _
        rw [h.joins hj]
        rfl
      · show (x.call _).delivered ++ (x.forward.map _).getD [] = x.read.filterMap _
        rw [delivered_call, delivered, h.joins hj, hread, hnone]
        rfl
  | insert hj =>
      have hstarts := h.starts
      rw [hj] at hstarts
      refine ⟨by simp, ?_, hstarts, nofun, nofun, h.unspawned, nofun, h.forwards⟩
      have := h.spawned
      rw [hj] at this
      simpa using this
  | start hj =>
      have hstarts := h.starts
      rw [hj] at hstarts
      refine ⟨?_, ?_, ?_, nofun, nofun, h.unspawned, h.unborn, ?_⟩
      · have := h.born
        rw [hj] at this
        simpa [call] using this
      · have := h.spawned
        rw [hj] at this
        simpa [call] using this
      · show (x.call .onStart).log.countP _ = 1
        rw [countP_call, hstarts]
        rfl
      · show (x.call .onStart).delivered ++ x.inFlight = x.read.filterMap _
        rw [delivered_call]
        simpa [TopicCall.forwarded?] using h.forwards

theorem books_invariant (handle : UInt64) (max : ℕ) :
    (gossipTopicMachine handle max).Invariant Any (fun x => x.Books handle max ∧ x.Events) where
  init x hx := by
    have hnew : x = {} := hx
    subst hnew
    exact ⟨⟨nofun, fun _ => ⟨rfl, rfl⟩, fun _ => rfl, nofun, fun _ => rfl⟩,
      by simp, by simp, rfl, nofun, fun _ => rfl, fun _ => rfl, fun _ => rfl, rfl⟩
  step x a y h _ hy := by
    have hs := steps hy
    have hj : x.join = .joined → x.sub = none := fun hj => h.2.born.2 (by simp [hj])
    exact ⟨h.1.step hj hs, h.2.step h.1 hs⟩

/-! ## The law -/

/-- What the host gets from a subscription and from its broadcasts. -/
structure TopicLaw (handle : UInt64) (max : ℕ) (x : GossipTopic) : Prop where
  /-- A broadcast is answered once, when it is refused or over. -/
  answered : ∀ (i : ℕ) (b : Broadcast), x.broadcasts[i]? = some b →
    x.answersOf i = b.answer?.toList ∧
      ∀ result, b.answer? = some result → BroadcastAnswer handle max b.size result
  /-- The swarm has each message as often as broadcasts of it have succeeded. -/
  handed : ∀ m, x.handed.count m = x.broadcasts.countP (tookMessage m)
  /-- The events that were read are forwarded, in order. -/
  forwards : x.delivered ++ x.inFlight = x.read.filterMap gossipSubscribe.forward
  /-- `on_start` is called once, after the topic is joined. -/
  starts : x.log.countP TopicCall.isStart = if x.join = .started then 1 else 0
  /-- After a join that failed there is one call, and no broadcast succeeds. -/
  fails : x.join = .failed → (∃ e, x.log = [.joinFailed ("error " ++ e)]) ∧ x.handed = []

theorem gossip_topic_law (handle : UInt64) (max : ℕ) {x : GossipTopic}
    (hx : (gossipTopicMachine handle max).Reachable Any x) : x.TopicLaw handle max := by
  obtain ⟨hb, he⟩ := (books_invariant handle max).reachable hx
  refine ⟨fun i b hi => ⟨?_, fun result hr => ?_⟩, hb.handed, he.forwards, he.starts, fun hj =>
    ⟨he.fails hj, he.unborn (he.born.2 (by simp [hj]))⟩⟩
  · rw [hb.answers i, hi]
    rfl
  · exact (hb.fits b (List.mem_of_getElem? hi)).answer hr

/-! ## The end of the subscription -/

/-- Nothing refers to the subscription, and its task was aborted where it is parked. -/
structure Stopped (handle : UInt64) (max : ℕ) (x : GossipTopic) : Prop where
  books : x.Books handle max
  dropped : ∃ r, x.sub = some r ∧ r.Dropped
  idle : ∀ f, x.forward = some f → f.isIdle = true
  started : x.join = .started

theorem Stopped.aborted (h : x.Stopped handle max) : x.aborted = true := by
  obtain ⟨r, hr, hd⟩ := h.dropped
  obtain ⟨hsound, hstored, -⟩ := h.books.sub r hr
  rw [GossipTopic.aborted, hr]
  exact hsound.2 ⟨hd, hstored⟩

theorem Stopped.step (h : x.Stopped handle max) (hs : Steps handle max x a y) :
    y.Stopped handle max ∧ y.log = x.log := by
  obtain ⟨r, hr, hd⟩ := h.dropped
  have hnone : x.join = .joined → x.sub = none := fun hj => by cases h.started.symm.trans hj
  have hbooks := h.books.step hnone hs
  have hzero : r.registered.toNat + r.calls = 0 := hd
  cases hs with
  | joined hj | failed _ hj | insert hj | start hj => cases h.started.symm.trans hj
  | arrive | unknown => exact ⟨⟨hbooks, ⟨r, hr, hd⟩, h.idle, h.started⟩, rfl⟩
  | unsubscribed => exact ⟨h, rfl⟩
  | lookUp _ hr' hregistered | unsubscribe hr' hregistered =>
      obtain rfl := Option.some.inj (hr.symm.trans hr')
      rw [hregistered, Bool.toNat_true] at hzero
      omega
  | closerLeaves hpos =>
      have := (h.books.sub r hr).2.2
      omega
  | @broadcast a i b z _ hi hs =>
      have hrefers : b.refers = false := by
        by_contra hb
        obtain ⟨r', hr', hpos⟩ := h.books.refers hi (by simpa using hb)
        obtain rfl := Option.some.inj (hr.symm.trans hr')
        omega
      cases hs with
      | refuse hp | spawn hp | send hp | fail _ hp | leave _ hp =>
          rw [Broadcast.refers, hp] at hrefers
          cases hrefers
      | complete => exact ⟨⟨hbooks, ⟨r, hr, hd⟩, h.idle, h.started⟩, rfl⟩
  | forward hf hs =>
      have hidle := h.idle _ hf
      cases hs with
      | poll ha =>
          rw [h.aborted] at ha
          cases ha
      | drop =>
          refine ⟨⟨hbooks, ⟨r, hr, hd⟩, fun f hf => ?_, h.started⟩, rfl⟩
          obtain rfl := Option.some.inj hf
          rfl
      | next | error | park | call | finish => cases hidle

/-- The task is over, or an error of the stream is what it reads next. -/
inductive Ends (x : GossipTopic) : ForwardTask → Prop where
  | parked {e : String} {events : List GossipEvent} : x.events = .error e :: events →
      Ends x .parked
  | polled {e : String} {events : List GossipEvent} : x.events = .error e :: events →
      Ends x .polled
  | ended : Ends x .ended
  | dropped : Ends x .dropped

/-- The events that arrive stand behind the error. -/
theorem Ends.congr (h : x.Ends f) (hevents : x.events <+: y.events) : y.Ends f := by
  obtain ⟨later, hlater⟩ := hevents
  cases h with
  | @parked e events he =>
      have hy : y.events = .error e :: (events ++ later) := by rw [← hlater, he]; rfl
      exact .parked hy
  | @polled e events he =>
      have hy : y.events = .error e :: (events ++ later) := by rw [← hlater, he]; rfl
      exact .polled hy
  | ended => exact .ended
  | dropped => exact .dropped

/-- The task makes no call any more. -/
structure Ending (x : GossipTopic) : Prop where
  started : x.join = .started
  ends : ∃ f, x.forward = some f ∧ x.Ends f

theorem Ending.step (h : x.Ending) (hs : Steps handle max x a y) :
    y.Ending ∧ y.log = x.log := by
  obtain ⟨f, hf, hends⟩ := h.ends
  have hstay (hjoin : y.join = x.join) (hforward : y.forward = x.forward)
      (hevents : x.events <+: y.events) : y.Ending :=
    ⟨hjoin.trans h.started, f, hforward.trans hf, hends.congr hevents⟩
  cases hs with
  | joined hj | failed _ hj | insert hj | start hj => cases h.started.symm.trans hj
  | arrive event => exact ⟨hstay rfl rfl (List.prefix_append _ _), rfl⟩
  | lookUp | unknown | unsubscribe | closerLeaves => exact ⟨hstay rfl rfl List.prefix_rfl, rfl⟩
  | unsubscribed => exact ⟨h, rfl⟩
  | broadcast _ _ hs =>
      obtain ⟨hjoin, hforward, -, hlog, -⟩ := hs.events
      exact ⟨hstay hjoin hforward (hs.pending ▸ List.prefix_rfl), hlog⟩
  | forward hf' hs =>
      obtain rfl := Option.some.inj (hf.symm.trans hf')
      cases hends with
      | parked he =>
          cases hs with
          | poll => exact ⟨⟨h.started, _, rfl, .polled he⟩, rfl⟩
          | drop => exact ⟨⟨h.started, _, rfl, .dropped⟩, rfl⟩
      | polled he =>
          cases hs with
          | next he' hforward =>
              obtain ⟨rfl, -⟩ := List.cons.inj (he.symm.trans he')
              cases hforward
          | error | finish => exact ⟨⟨h.started, _, rfl, .ended⟩, rfl⟩
          | park => exact ⟨⟨h.started, _, rfl, .parked he⟩, rfl⟩
      | ended => cases hs
      | dropped => cases hs

/-- A topic that is unsubscribed while a broadcast is under way. -/
def brokenOff : List TopicAction :=
  [.join (.ok ()), .insert, .start, .broadcast "hi", .check 0, .arrive (.neighborUp "a"),
    .forward .poll, .forward .next, .unsubscribe, .closerLeaves, .forward .call, .forward .park,
    .broadcast "late"]

def topicAfter (actions : List TopicAction) : GossipTopic :=
  ((gossipTopicMachine 1 4096).run {} actions).getD {}

theorem topicAfter_reachable (actions : List TopicAction)
    (h : ((gossipTopicMachine 1 4096).run {} actions).isSome = true) :
    (gossipTopicMachine 1 4096).Reachable Any (topicAfter actions) :=
  Machine.reachable_getD rfl h _

theorem gossip_topic_law_brokenOff :
    (topicAfter brokenOff).delivered.length = 1 ∧ (topicAfter brokenOff).TopicLaw 1 4096 :=
  ⟨by decide +kernel, gossip_topic_law 1 4096 (topicAfter_reachable _ (by decide +kernel))⟩

end GossipTopic

end Iroh.Core
