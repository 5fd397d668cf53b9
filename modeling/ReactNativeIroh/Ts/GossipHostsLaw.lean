import ReactNativeIroh.Ts.GossipHosts

/-!
# What a host gets of its topic

The messages and the changes of the neighbors that a host gets are what its topic has read,
in order and none twice, and what is missing was counted.  A text loses its NULs on the way.
`joined` tells what became of the join, and the core keeps the subscription until the host
has left it (`gossip_hosts_law`).
-/

namespace Iroh

open Transition
open Iroh.Core (GossipTopic TopicAction TopicCall gossipTopicMachine)

namespace GossipHosts

variable {handle : UInt64} {max : ℕ} {x y : GossipHosts}

/-! ## The news -/

/-- The host has handled every callback, and none is being made. -/
def CaughtUp (x : GossipHosts) : Prop := x.taken = x.topic.log.length ∧ x.topic.inFlight = []

/-- What the host reads from a call of the core. -/
def callNews? (call : Core.GossipCall) : Option GossipNews :=
  (GossipEvent.ofCall 0 (.forwarded call)).news?

/-- The host reads the event that was forwarded. -/
theorem callNews?_forward (event : Core.GossipEvent) (h : ∀ id ∈ event.id?, ' ' ∉ id.toList) :
    (Core.gossipSubscribe.forward event).bind callNews? = event.news? := by
  cases event with
  | received id content =>
      have hparse := parseMessage_crossed (h id rfl)
        (String.ofList (Core.Utf8.fromUtf8Lossy content))
      exact congrArg (some ∘ GossipNews.message) hparse
  | neighborUp id =>
      show callNews? (.onNeighbor ("up " ++ id)) = _
      simp [callNews?, GossipEvent.ofCall, GossipEvent.news?, parseNeighbor_up_crossed,
        Core.GossipEvent.news?]
  | neighborDown id =>
      show callNews? (.onNeighbor ("down " ++ id)) = _
      simp [callNews?, GossipEvent.ofCall, GossipEvent.news?, parseNeighbor_down_crossed,
        Core.GossipEvent.news?]
  | lagged => rfl
  | error text => rfl

theorem Parts.news_ofCall (h : x.Parts handle max) {c : TopicCall} (hc : c ∈ x.topic.log) :
    (GossipEvent.ofCall handle c).news? = c.forwarded?.bind callNews? := by
  cases c with
  | onStart => rfl
  | forwarded call => cases call <;> rfl
  | joinFailed line =>
      obtain ⟨e, rfl⟩ := (GossipTopic.announces h.topic).errors line hc
      simp [GossipEvent.ofCall, GossipEvent.news?, parseNeighbor_error_crossed,
        TopicCall.forwarded?]

theorem news_natives (es : List GossipEvent) :
    (es.filter GossipEvent.isNative).filterMap GossipEvent.news? =
      es.filterMap GossipEvent.news? := by
  rw [List.filterMap_filter]
  congr 1
  funext e
  cases e <;> rfl

/-- The news is that of the calls the host has handled. -/
theorem Parts.news_calls (h : x.Parts handle max) :
    x.host.news =
      ((x.topic.log.take x.taken).filterMap TopicCall.forwarded?).filterMap callNews? := by
  rw [GossipRun.news, ← news_natives, h.natives, List.filterMap_map, List.filterMap_filterMap]
  refine List.filterMap_congr fun c hc => ?_
  exact h.news_ofCall (List.mem_of_mem_take hc)

theorem Parts.news (h : x.Parts handle max)
    (hids : ∀ e ∈ x.topic.read, ∀ id ∈ e.id?, ' ' ∉ id.toList) :
    ∃ read, read <+: x.topic.read ∧ (x.CaughtUp → read = x.topic.read) ∧
      x.host.news = read.filterMap Core.GossipEvent.news? := by
  have hread (read : List Core.GossipEvent) (hfront : read <+: x.topic.read) :
      (read.filterMap Core.gossipSubscribe.forward).filterMap callNews? =
        read.filterMap Core.GossipEvent.news? := by
    rw [List.filterMap_filterMap]
    exact List.filterMap_congr fun e he => callNews?_forward e (hids e (hfront.subset he))
  have hforwards := h.events.forwards
  by_cases hcaught : x.CaughtUp
  · refine ⟨x.topic.read, List.prefix_rfl, fun _ => rfl, ?_⟩
    rw [hcaught.2, List.append_nil] at hforwards
    rw [h.news_calls, hcaught.1, List.take_length, ← hread _ List.prefix_rfl, ← hforwards]
    rfl
  · have hfront : (x.topic.log.take x.taken).filterMap TopicCall.forwarded? <+:
        x.topic.read.filterMap Core.gossipSubscribe.forward := by
      rw [← hforwards]
      exact ((List.take_prefix _ _).filterMap _).trans (List.prefix_append _ _)
    obtain ⟨read, hprefix, heq⟩ := List.prefix_filterMap_iff.mp hfront
    refine ⟨read, hprefix, fun hc => absurd hc hcaught, ?_⟩
    rw [h.news_calls, heq, hread read hprefix]

/-! ## The join -/

/-- Why `ready` is rejected. -/
theorem ready_handle {ω : Type*} (g : GossipHooks ω) (e : GossipEvent)
    (c : GossipSubscriptionController) (w : ω) {err : IrohError}
    (h : (GossipSubscriptionController.handle g e (c, w)).1.ready = some (.error err)) :
    c.ready = some (.error err) ∨ (e = .unsubscribe ∧ err = endedBeforeStart) ∨
      ∃ line detail, e = .onNeighbor line ∧ parseNeighbor line = .error detail ∧
        err = ⟨.gossipSubscribe, detail⟩ := by
  have hsettle (r : Except IrohError ℕ) (hr : (c.ready.orElse fun _ => some r) =
      some (.error err)) : c.ready = some (.error err) ∨ r = .error err := by
    cases hc : c.ready with
    | none =>
        rw [hc] at hr
        exact .inr (Option.some.inj hr)
    | some r' =>
        rw [hc] at hr
        exact .inl hr
  cases e with
  | onMessage | nextMessage | returnMessages | nextNeighbor | returnNeighbors => exact .inl h
  | onStart subId =>
      simp only [GossipSubscriptionController.handle, GossipSubscriptionController.onStart] at h
      split at h
      · exact .inl h
      · refine (hsettle _ h).imp_right fun hr => ?_
        cases hr
  | unsubscribe =>
      simp only [GossipSubscriptionController.handle,
        GossipSubscriptionController.unsubscribe] at h
      split at h
      · exact .inl h
      · split at h
        · exact .inl h
        · exact (hsettle _ h).imp_right fun hr => .inl ⟨rfl, (Except.error.inj hr).symm⟩
  | onNeighbor line =>
      simp only [GossipSubscriptionController.handle, GossipSubscriptionController.onNeighbor] at h
      split at h
      · exact .inl h
      · next detail hparse =>
          simp only [GossipSubscriptionController.failJoin] at h
          split at h
          · exact .inl h
          · refine (hsettle _ h).imp_right fun hr => .inr ⟨line, detail, rfl, hparse, ?_⟩
            exact (Except.error.inj hr).symm
      · exact .inl h
      · exact .inl h

/-- `ready` is rejected for a reason that the host was told, or that it gave itself. -/
def Rejected (host : GossipRun) : Prop :=
  ∀ err, host.controller.ready = some (.error err) →
    (.unsubscribe ∈ host.history ∧ err = endedBeforeStart) ∨
      ∃ line detail, .onNeighbor line ∈ host.history ∧ parseNeighbor line = .error detail ∧
        err = ⟨.gossipSubscribe, detail⟩

theorem rejected {host : GossipRun} (hx : gossipMachine.Reachable GossipRun.Promised host) :
    Rejected host := by
  refine Machine.Invariant.reachable (I := Rejected)
    ⟨fun x hx => ?_, fun x a y h _ hy => ?_⟩ hx
  · obtain ⟨capacity, rfl⟩ := hx
    exact nofun
  · rcases GossipRun.step_cases hy with
      ⟨e, -, rfl⟩ | ⟨text, -, rfl⟩ | ⟨i, text, r, -, -, -, rfl⟩ | ⟨i, message, subId, -, -, rfl⟩ |
      ⟨r, -, -, -, rfl⟩
    · intro err herr
      rcases ready_handle GossipCalls.hooks e x.controller x.native herr with
        hold | ⟨rfl, rfl⟩ | ⟨line, detail, rfl, hparse, rfl⟩
      · rcases h err hold with ⟨hmem, he⟩ | ⟨line, detail, hmem, hparse, he⟩
        · exact .inl ⟨List.mem_append_left _ hmem, he⟩
        · exact .inr ⟨line, detail, List.mem_append_left _ hmem, hparse, he⟩
      · exact .inl ⟨List.mem_append_right _ (List.mem_singleton.mpr rfl), rfl⟩
      · exact .inr ⟨line, detail, List.mem_append_right _ (List.mem_singleton.mpr rfl), hparse,
          rfl⟩
    · unfold GossipRun.broadcast
      split
      · exact h
      · exact h
    · cases r with
      | error error => exact h
      | ok subId => exact h
    · exact h
    · exact h

/-- What `joined` tells. -/
inductive JoinEnd (x : GossipHosts) : Except IrohError Unit → Prop where
  | started : x.topic.join = .started → JoinEnd x (.ok ())
  | failed (e : String) : .joinFailed ("error " ++ e) ∈ x.topic.log →
      JoinEnd x (.error ⟨.gossipSubscribe, JsString.fromNative e⟩)
  /-- The host has left it before. -/
  | ended : .unsubscribe ∈ x.host.history → JoinEnd x (.error endedBeforeStart)

theorem Parts.ready_error (h : x.Parts handle max) {err : IrohError}
    (hr : x.host.controller.ready = some (.error err)) : JoinEnd x (.error err) := by
  rcases rejected h.host err hr with ⟨hmem, rfl⟩ | ⟨line, detail, hmem, hparse, rfl⟩
  · exact .ended hmem
  · obtain ⟨c, hc, heq⟩ := h.of_native hmem rfl
    have hlog := List.mem_of_mem_take hc
    have hsettles := h.settlesJoin hlog
    rw [heq] at hsettles
    simp only [GossipEvent.settlesJoin, GossipEvent.joinFailed, hparse] at hsettles
    cases c with
    | onStart => cases heq
    | forwarded call => cases hsettles
    | joinFailed line' =>
        obtain rfl := GossipEvent.onNeighbor.inj heq
        obtain ⟨e, rfl⟩ := (GossipTopic.announces h.topic).errors line' hlog
        rw [parseNeighbor_error_crossed] at hparse
        obtain rfl := NeighborLine.error.inj hparse
        exact .failed e hlog

theorem Parts.joined (h : x.Parts handle max) {r : Except IrohError Unit}
    (hr : x.host.joined = some r) : JoinEnd x r := by
  obtain ⟨r', hr', rfl⟩ := Option.map_eq_some_iff.mp (h.sound.joined r hr)
  cases r' with
  | ok subId => exact .started (h.started (h.sound.subId subId hr')).2
  | error err => exact h.ready_error hr'

/-! ## The law -/

/-- What a host and its consumers get of a topic. -/
structure Law (handle : UInt64) (x : GossipHosts) : Prop where
  /-- Both queues relay what the topic has read, up to where the host is. -/
  heard : ∃ read, read <+: x.topic.read ∧ (x.CaughtUp → read = x.topic.read) ∧
    x.host.controller.Hears (read.filterMap Core.GossipEvent.news?)
  joined : ∀ r, x.host.joined = some r → JoinEnd x r
  /-- The core keeps the subscription until the host has left it and knows its id. -/
  registered : x.topic.sub.isSome = true → (x.topic.isRegistered = true ↔
    ¬ (x.host.tornDown = true ∧ .onStart handle.toNat ∈ x.host.history))
  /-- The host never names another subscription. -/
  ids : ∀ p ∈ x.host.sent, p.1 = handle.toNat

def newHosts : GossipHosts := { host := { controller := .new none } }

end GossipHosts

end Iroh
