import ReactNativeIroh.Core.GossipSteps
import ReactNativeIroh.Lib.Linked
import ReactNativeIroh.Ts.GossipHeard

/-!
# A subscription of the host and its topic

The controller of a subscription calls `gossipBroadcast` and `gossipUnsubscribe` of the core,
and the core calls back.  The callbacks run on the host's thread one by one, in the order in
which they were called and as late as it likes, and so does the end of a native broadcast.

A native broadcast is known by the order of the calls, in the core as well, and so is a
broadcast of the host.

What the core says crosses the bridge without its NULs, and a text of the host is read up to
its first NUL.
-/

namespace Iroh

open Transition
open Iroh.Core (GossipTopic TopicAction TopicCall gossipTopicMachine)

/-- A callback, as the controller handles it.  The id of the subscription is its handle. -/
def GossipEvent.ofCall (handle : UInt64) : TopicCall → GossipEvent
  | .onStart => .onStart handle.toNat
  | .forwarded (.onMessage line) => .onMessage (JsString.fromNative line)
  | .forwarded (.onNeighbor line) => .onNeighbor (JsString.fromNative line)
  | .joinFailed line => .onNeighbor (JsString.fromNative line)

def GossipEvent.isNative : GossipEvent → Bool
  | .onStart _ | .onMessage _ | .onNeighbor _ => true
  | _ => false

/-- What the promise of a native broadcast is rejected with. -/
def rejection : Except Core.IrohError Unit → Option String
  | .ok () => none
  | .error err => some (JsString.fromNative (Core.encodeError err))

structure GossipHosts where
  topic : GossipTopic := {}
  host : GossipRun
  /-- How many callbacks the host has handled. -/
  taken : ℕ := 0
  /-- The texts of the broadcasts, as the host has them. -/
  texts : List JsString := []
  /-- The broadcast that made each native broadcast. -/
  callers : List ℕ := []

inductive GossipHostsAction where
  /-- The core, the swarm and the workers. -/
  | core (a : TopicAction)
  /-- The host handles the next callback. -/
  | callback
  /-- What the host and its consumers do. -/
  | consumer (e : GossipEvent)
  | broadcast (text : JsString)
  | resume (i : ℕ)
  /-- The promise of a native broadcast settles. -/
  | broadcasted (k : ℕ)
  | joinedReaction

namespace GossipHosts

variable (handle : UInt64) (max : ℕ)

/-- What the core has after the host called `gossipUnsubscribe`, if it did. -/
def told (x : GossipHosts) (host : GossipRun) : GossipTopic :=
  if host.native.unsubscribed = x.host.native.unsubscribed then x.topic
  else (x.topic.step handle max .unsubscribe).getD x.topic

def after (x : GossipHosts) (e : GossipEvent) : GossipHosts :=
  { x with topic := x.told handle max (x.host.after e), host := x.host.after e }

/-- Broadcast `i` calls `gossipBroadcast`. -/
def call (x : GossipHosts) (i : ℕ) (text : String) : GossipHosts :=
  { x with topic := x.topic.broadcast handle text, callers := x.callers ++ [i] }

/-- The controller does not look into the text, which stands in its broadcast as the native side
will read it. -/
def broadcast (x : GossipHosts) (text : JsString) : GossipHosts :=
  let y := { x with host := x.host.broadcast text.native, texts := x.texts ++ [text] }
  match x.host.controller.subId with
  | some _ => y.call handle x.host.broadcasts.length text.native
  | none => y

def resume (x : GossipHosts) (i : ℕ) (text : String) : Except IrohError ℕ → GossipHosts
  | .ok subId => call handle { x with host := x.host.resume i text (.ok subId) } i text
  | .error error => { x with host := x.host.resume i text (.error error) }

def step (x : GossipHosts) : GossipHostsAction → Option GossipHosts
  | .core a =>
      if a.ofHost then none
      else (x.topic.step handle max a).map fun topic => { x with topic }
  | .callback =>
      (x.topic.log[x.taken]?).map fun c =>
        { x.after handle max (.ofCall handle c) with taken := x.taken + 1 }
  | .consumer e => if e.isNative then none else some (x.after handle max e)
  | .broadcast text => some (x.broadcast handle text)
  | .resume i =>
      match x.host.broadcasts[i]? with
      | some (.waiting text) => x.host.controller.ready.map (x.resume handle i text)
      | _ => none
  | .broadcasted k =>
      (x.callers[k]?).bind fun i => (x.topic.answersOf k).head?.bind fun result =>
        (x.host.step (.broadcasted i (rejection result))).map fun host => { x with host }
  | .joinedReaction => (x.host.step .joinedReaction).map fun host => { x with host }

/-- What a step can do. -/
inductive Steps (x : GossipHosts) : GossipHosts → Prop where
  | core {a : TopicAction} {topic : GossipTopic} : a.ofHost = false →
      x.topic.step handle max a = some topic → Steps x { x with topic }
  | callback {c : TopicCall} : x.topic.log[x.taken]? = some c →
      Steps x { x.after handle max (.ofCall handle c) with taken := x.taken + 1 }
  | consumer {e : GossipEvent} : e.isNative = false → Steps x (x.after handle max e)
  | broadcast (text : JsString) : Steps x (x.broadcast handle text)
  | resume {i : ℕ} {text : String} {r : Except IrohError ℕ} :
      x.host.broadcasts[i]? = some (.waiting text) → x.host.controller.ready = some r →
      Steps x (x.resume handle i text r)
  | broadcasted {k i : ℕ} {result : Except Core.IrohError Unit} {host : GossipRun} :
      x.callers[k]? = some i → (x.topic.answersOf k).head? = some result →
      x.host.step (.broadcasted i (rejection result)) = some host → Steps x { x with host }
  | joinedReaction {host : GossipRun} : x.host.step .joinedReaction = some host →
      Steps x { x with host }

variable {handle : UInt64} {max : ℕ} {x y : GossipHosts}

theorem steps {a : GossipHostsAction} (h : x.step handle max a = some y) :
    x.Steps handle max y := by
  cases a with
  | core a =>
      obtain ⟨ha, hy⟩ := Option.ite_none_left_eq_some.mp h
      obtain ⟨topic, ht, rfl⟩ := Option.map_eq_some_iff.mp hy
      exact .core (Bool.eq_false_iff.mpr ha) ht
  | callback =>
      obtain ⟨c, hc, rfl⟩ := Option.map_eq_some_iff.mp h
      exact .callback hc
  | consumer e =>
      obtain ⟨he, hy⟩ := Option.ite_none_left_eq_some.mp h
      obtain rfl := Option.some.inj hy
      exact .consumer (Bool.eq_false_iff.mpr he)
  | broadcast text =>
      obtain rfl := Option.some.inj h
      exact .broadcast text
  | resume i =>
      simp only [step] at h
      split at h
      · next text hi =>
          obtain ⟨r, hr, rfl⟩ := Option.map_eq_some_iff.mp h
          exact .resume hi hr
      · cases h
  | broadcasted k =>
      obtain ⟨i, hi, h⟩ := Option.bind_eq_some_iff.mp h
      obtain ⟨result, hresult, h⟩ := Option.bind_eq_some_iff.mp h
      obtain ⟨host, hhost, rfl⟩ := Option.map_eq_some_iff.mp h
      exact .broadcasted hi hresult hhost
  | joinedReaction =>
      obtain ⟨host, hhost, rfl⟩ := Option.map_eq_some_iff.mp h
      exact .joinedReaction hhost

end GossipHosts

/-- The machine of a subscription with this handle, where a message may have `max` bytes. -/
def gossipHostsMachine (handle : UInt64) (max : ℕ) : Machine GossipHosts GossipHostsAction where
  init x := ∃ capacity, x = { host := { controller := .new capacity } }
  step := GossipHosts.step handle max

namespace GossipHosts

variable {handle : UInt64} {max : ℕ} {x y : GossipHosts}

/-! ## The two sides -/

/-- A call of the core that the host's events cause. -/
theorem unsubscribed_after (host : GossipRun) (e : GossipEvent) :
    (host.after e).native.unsubscribed = host.native.unsubscribed ∨
      ∃ subId, (host.after e).native.unsubscribed = host.native.unsubscribed ++ [subId] := by
  rcases GossipSubscriptionController.handle_cases e host.controller host.native with
    ⟨c, he, -⟩ | ⟨subId, -, -, he⟩ | ⟨subId, -, -, he⟩ | ⟨subId, -, -, -, he⟩ |
    ⟨-, -, -, -, error, closing, he⟩
  · exact .inl (by simp only [GossipRun.after, he])
  · exact .inl (by simp only [GossipRun.after, he])
  · exact .inr ⟨subId, by simp only [GossipRun.after, he]; rfl⟩
  · exact .inr ⟨subId, by simp only [GossipRun.after, he]; rfl⟩
  · exact .inl (by simp only [GossipRun.after, he]; rfl)

theorem unsubscribe_isSome (topic : GossipTopic) :
    ∃ topic', topic.step handle max .unsubscribe = some topic' := by
  simp only [GossipTopic.step]
  split
  · exact ⟨_, rfl⟩
  · exact ⟨_, rfl⟩

theorem broadcasted_cases {host host' : GossipRun} {i : ℕ} {message : Option String}
    (h : host.step (.broadcasted i message) = some host') :
    ∃ subId, host.broadcasts[i]? = some (.calling subId) ∧
      host' = { host with
        broadcasts := host.broadcasts.set i (.settled (message.map IrohError.fromMessage)) } := by
  rcases GossipRun.step_cases h with
    ⟨e, ha, -⟩ | ⟨text, ha, -⟩ | ⟨i, text, r, ha, -⟩ | ⟨i', message', subId, ha, hi, rfl⟩ |
    ⟨r, ha, -⟩
  · cases ha
  · cases ha
  · cases ha
  · cases ha
    exact ⟨subId, hi, rfl⟩
  · cases ha

theorem joinedReaction_cases {host host' : GossipRun}
    (h : host.step .joinedReaction = some host') :
    ∃ r, host.joined = none ∧ host.controller.ready = some r ∧
      host' = { host with joined := some (r.map fun _ => ()) } := by
  rcases GossipRun.step_cases h with
    ⟨e, ha, -⟩ | ⟨text, ha, -⟩ | ⟨i, text, r, ha, -⟩ | ⟨i', message', subId, ha, -⟩ |
    ⟨r, -, hj, hr, rfl⟩
  · cases ha
  · cases ha
  · cases ha
  · cases ha
  · exact ⟨r, hj, hr, rfl⟩

/-- What the core does when the host handles an event. -/
theorem told_cases (x : GossipHosts) (e : GossipEvent) :
    (x.told handle max (x.host.after e) = x.topic ∧
      (x.host.after e).native.unsubscribed = x.host.native.unsubscribed) ∨
    (x.topic.step handle max .unsubscribe = some (x.told handle max (x.host.after e)) ∧
      (x.host.after e).native.unsubscribed ≠ []) := by
  rw [told]
  split
  · next hsame => exact .inl ⟨rfl, hsame⟩
  · next hchanged =>
      obtain ⟨topic, htopic⟩ : ∃ topic, x.topic.step handle max .unsubscribe = some topic :=
        unsubscribe_isSome x.topic
      refine .inr ⟨by rw [htopic, Option.getD_some], ?_⟩
      rcases unsubscribed_after x.host e with hsame | ⟨subId, happend⟩
      · exact absurd hsame hchanged
      · rw [happend]
        exact List.append_ne_nil_of_right_ne_nil _ (List.cons_ne_nil _ _)

/-- What a state is of the two sides. -/
structure Parts (handle : UInt64) (max : ℕ) (x : GossipHosts) : Prop where
  topic : (gossipTopicMachine handle max).Reachable Any x.topic
  host : gossipMachine.Reachable GossipRun.Promised x.host
  bound : x.taken ≤ x.topic.log.length
  /-- The host has handled the first callbacks, in order. -/
  natives : x.host.history.filter GossipEvent.isNative =
    (x.topic.log.take x.taken).map (.ofCall handle)
  /-- The subscription is registered until the host ends it. -/
  registered : x.topic.sub.isSome = true →
    (x.topic.isRegistered = true ↔ x.host.native.unsubscribed = [])

namespace Parts

theorem sound (h : x.Parts handle max) : x.host.Sound := GossipRun.sound_invariant.reachable h.host

theorem events (h : x.Parts handle max) : x.topic.Events :=
  ((GossipTopic.books_invariant handle max).reachable h.topic).2

theorem of_native (h : x.Parts handle max) {e : GossipEvent} (he : e ∈ x.host.history)
    (hnative : e.isNative = true) : ∃ c ∈ x.topic.log.take x.taken, .ofCall handle c = e := by
  have hmem : e ∈ x.host.history.filter GossipEvent.isNative := List.mem_filter.mpr ⟨he, hnative⟩
  rw [h.natives] at hmem
  exact List.mem_map.mp hmem

/-- The id that the host knows is the handle of the subscription. -/
theorem started (h : x.Parts handle max) {subId : ℕ} (hid : x.host.controller.subId = some subId) :
    subId = handle.toNat ∧ x.topic.join = .started := by
  obtain ⟨c, hc, heq⟩ := h.of_native (h.sound.mem_history.mpr hid) rfl
  cases c with
  | onStart =>
      refine ⟨(GossipEvent.onStart.inj heq).symm, ?_⟩
      have hpos : 0 < x.topic.log.countP TopicCall.isStart :=
        List.countP_pos_iff.mpr ⟨_, List.mem_of_mem_take hc, rfl⟩
      have hstarts := h.events.starts
      split at hstarts
      · next hj => exact hj
      · omega
  | forwarded call => cases call <;> cases heq
  | joinFailed line => cases heq

/-- A callback settles the join if it says what became of it. -/
theorem settlesJoin (h : x.Parts handle max) {c : TopicCall} (hc : c ∈ x.topic.log) :
    (GossipEvent.ofCall handle c).settlesJoin = c.settles := by
  cases c with
  | onStart => rfl
  | joinFailed line =>
      obtain ⟨e, rfl⟩ := (GossipTopic.announces h.topic).errors line hc
      simp [GossipEvent.ofCall, GossipEvent.settlesJoin, GossipEvent.joinFailed,
        parseNeighbor_error_crossed, TopicCall.settles]
  | forwarded call =>
      have hmem : call ∈ x.topic.delivered ++ x.topic.inFlight :=
        List.mem_append_left _ (List.mem_filterMap.mpr ⟨_, hc, rfl⟩)
      rw [h.events.forwards] at hmem
      obtain ⟨event, -, hforward⟩ := List.mem_filterMap.mp hmem
      cases event with
      | error => cases hforward
      | received id content =>
          obtain rfl := Option.some.inj hforward
          rfl
      | lagged =>
          obtain rfl := Option.some.inj hforward
          rfl
      | neighborUp id =>
          obtain rfl := Option.some.inj hforward
          simp [GossipEvent.ofCall, GossipEvent.settlesJoin, GossipEvent.joinFailed,
            parseNeighbor_up_crossed, TopicCall.settles, GossipEvent.id?]
      | neighborDown id =>
          obtain rfl := Option.some.inj hforward
          simp [GossipEvent.ofCall, GossipEvent.settlesJoin, GossipEvent.joinFailed,
            parseNeighbor_down_crossed, TopicCall.settles, GossipEvent.id?]

theorem not_before {α : Type*} {p : α → Bool} {l : List α} {n : ℕ} {c : α}
    (hn : l[n]? = some c) (hc : p c = true) (hl : l.countP p ≤ 1) :
    ∀ d ∈ l.take n, p d = false := by
  obtain ⟨hlt, rfl⟩ := List.getElem?_eq_some_iff.mp hn
  have hcount := congrArg (List.countP p) (List.take_append_drop n l)
  rw [List.countP_append, List.drop_eq_getElem_cons hlt, List.countP_cons_of_pos hc] at hcount
  have hzero : (l.take n).countP p = 0 := by omega
  exact fun d hd => by simpa using List.countP_eq_zero.mp hzero d hd

/-- The core keeps what the host relies on. -/
theorem promised (h : x.Parts handle max) {c : TopicCall} (hc : x.topic.log[x.taken]? = some c) :
    x.host.Promised (.event (.ofCall handle c)) := by
  intro hsettles e he
  rw [h.settlesJoin (List.mem_of_getElem? hc)] at hsettles
  have hone : x.topic.log.countP TopicCall.settles ≤ 1 := by
    rw [(GossipTopic.announces h.topic).settles]
    split <;> omega
  by_contra hn
  have hjoin : e.settlesJoin = true := by simpa using hn
  obtain ⟨d, hd, rfl⟩ := h.of_native he (by cases e <;> first | rfl | cases hjoin)
  rw [h.settlesJoin (List.mem_of_mem_take hd)] at hjoin
  rw [not_before hc hsettles hone d hd] at hjoin
  cases hjoin

theorem unsubscribed (h : x.Parts handle max) (hj : x.topic.join ≠ .started) :
    x.host.native.unsubscribed = [] := by
  have hnone : x.host.controller.subId = none := by
    cases hid : x.host.controller.subId with
    | none => rfl
    | some subId => exact absurd (h.started hid).2 hj
  rw [h.sound.unsubscribed, hnone]
  split <;> rfl

/-- The topic takes a step of its own. -/
theorem core (h : x.Parts handle max) {a : TopicAction} {topic : GossipTopic}
    (ha : a.ofHost = false) (ht : x.topic.step handle max a = some topic) :
    Parts handle max { x with topic } := by
  have hs := GossipTopic.steps ht
  obtain ⟨later, hlater⟩ := hs.log_grows
  refine ⟨h.topic.tail a trivial ht, h.host, ?_, ?_, fun hsome => ?_⟩
  · show x.taken ≤ topic.log.length
    rw [← hlater, List.length_append]
    exact Nat.le_add_right_of_le h.bound
  · show _ = (topic.log.take x.taken).map _
    rw [← hlater, List.take_append_of_le_length h.bound]
    exact h.natives
  · rcases hs.registered ha with ⟨hsame, hborn⟩ | ⟨hj, hregistered⟩
    · show topic.isRegistered = true ↔ _
      rw [hsame]
      exact h.registered (hborn ▸ hsome)
    · exact iff_of_true hregistered (h.unsubscribed (by simp [hj]))

/-- What the core has after the host handled an event. -/
theorem told (h : x.Parts handle max) (e : GossipEvent) {topic : GossipTopic}
    (htold : x.told handle max (x.host.after e) = topic) :
    topic.log = x.topic.log ∧ topic.broadcasts = x.topic.broadcasts ∧
      (gossipTopicMachine handle max).Reachable Any topic ∧
      (topic.sub.isSome = true →
        (topic.isRegistered = true ↔ (x.host.after e).native.unsubscribed = [])) := by
  rcases told_cases x e with ⟨hsame, hcalls⟩ | ⟨hstep, hcalled⟩
  · obtain rfl := htold.symm.trans hsame
    rw [hcalls]
    exact ⟨rfl, rfl, h.topic, h.registered⟩
  · rw [htold] at hstep
    obtain ⟨hlog, hbroadcasts, hregistered, -⟩ := (GossipTopic.steps hstep).unsubscribed_leaves
    refine ⟨hlog, hbroadcasts, h.topic.tail .unsubscribe trivial hstep, fun _ => ?_⟩
    exact iff_of_false (by simp [hregistered]) hcalled

theorem callback (h : x.Parts handle max) {c : TopicCall} (hc : x.topic.log[x.taken]? = some c) :
    Parts handle max { x.after handle max (.ofCall handle c) with taken := x.taken + 1 } := by
  obtain ⟨hlog, -, htopic, hregistered⟩ := h.told (.ofCall handle c) rfl
  obtain ⟨hlt, hget⟩ := List.getElem?_eq_some_iff.mp hc
  have hnative : (GossipEvent.ofCall handle c).isNative = true := by
    cases c with
    | onStart | joinFailed => rfl
    | forwarded call => cases call <;> rfl
  refine ⟨htopic, h.host.tail (.event _) (h.promised hc) rfl, hlog.symm ▸ hlt, ?_, hregistered⟩
  show (x.host.history ++ [_]).filter _ = ((x.told handle max _).log.take (x.taken + 1)).map _
  rw [hlog, List.filter_append, List.filter_cons_of_pos hnative, h.natives,
    List.take_succ_eq_append_getElem hlt, hget, List.map_append]
  rfl

theorem consumer (h : x.Parts handle max) {e : GossipEvent} (he : e.isNative = false) :
    Parts handle max (x.after handle max e) := by
  obtain ⟨hlog, -, htopic, hregistered⟩ := h.told e rfl
  have hG : x.host.Promised (.event e) := fun hsettles => by
    have : e.settlesJoin = false := by cases e <;> first | rfl | cases he
    rw [this] at hsettles
    cases hsettles
  refine ⟨htopic, h.host.tail (.event e) hG rfl, hlog.symm ▸ h.bound, ?_, hregistered⟩
  show (x.host.history ++ [e]).filter _ = ((x.told handle max _).log.take x.taken).map _
  rw [hlog, List.filter_append, h.natives]
  simp [he]

/-- The host does something that it does not tell the core. -/
theorem host_step (h : x.Parts handle max) {a : GossipAction} {host : GossipRun}
    (hG : x.host.Promised a) (hs : x.host.step a = some host)
    (hhistory : host.history = x.host.history)
    (hcalls : host.native.unsubscribed = x.host.native.unsubscribed) {texts : List JsString} :
    Parts handle max { x with host, texts } :=
  ⟨h.topic, h.host.tail a hG hs, h.bound, by rw [hhistory]; exact h.natives,
    by rw [hcalls]; exact h.registered⟩

theorem call (h : x.Parts handle max) (i : ℕ) (text : String) :
    Parts handle max (x.call handle i text) := by
  obtain ⟨hlog, hregistered, hborn, -⟩ := GossipTopic.broadcast_leaves text
  refine ⟨h.topic.tail (.broadcast text) trivial rfl, h.host, ?_, ?_, ?_⟩
  · exact hlog.symm ▸ h.bound
  · show _ = ((x.topic.broadcast handle text).log.take x.taken).map _
    rw [hlog]
    exact h.natives
  · show (x.topic.broadcast handle text).sub.isSome = true →
      ((x.topic.broadcast handle text).isRegistered = true ↔ x.host.native.unsubscribed = [])
    rw [hborn, hregistered]
    exact h.registered

end Parts

theorem parts_step (h : x.Parts handle max) (hs : x.Steps handle max y) : y.Parts handle max := by
  cases hs with
  | core ha ht => exact h.core ha ht
  | callback hc => exact h.callback hc
  | consumer he => exact h.consumer he
  | broadcast text =>
      have hhost : Parts handle max
          { x with host := x.host.broadcast text.native, texts := x.texts ++ [text] } := by
        refine h.host_step (a := .broadcast text.native) trivial rfl ?_ ?_
        · unfold GossipRun.broadcast
          split <;> rfl
        · unfold GossipRun.broadcast
          split <;> rfl
      unfold GossipHosts.broadcast
      split
      · exact hhost.call _ text.native
      · exact hhost
  | @resume i text r hi hr =>
      have hstep : x.host.step (.resume i) = some (x.host.resume i text r) := by
        simp only [GossipRun.step, hi, hr, Option.map_some]
      have hhost : Parts handle max { x with host := x.host.resume i text r } :=
        h.host_step (a := .resume i) trivial hstep (by cases r <;> rfl) (by cases r <;> rfl)
      cases r with
      | ok subId => exact hhost.call i text
      | error error => exact hhost
  | @broadcasted k i result host _ _ hhost =>
      obtain ⟨subId, hi, rfl⟩ := broadcasted_cases hhost
      exact h.host_step (a := .broadcasted i _) trivial hhost rfl rfl
  | joinedReaction hhost =>
      obtain ⟨r, -, -, rfl⟩ := joinedReaction_cases hhost
      exact h.host_step (a := .joinedReaction) trivial hhost rfl rfl

theorem parts_invariant (handle : UInt64) (max : ℕ) :
    (gossipHostsMachine handle max).Invariant Any fun x => x.Parts handle max where
  init x hx := by
    obtain ⟨capacity, rfl⟩ := hx
    exact ⟨⟨{}, rfl, .refl⟩, ⟨_, ⟨capacity, rfl⟩, .refl⟩, Nat.le_refl _, rfl, nofun⟩
  step _ _ _ h _ hy := parts_step h (steps hy)

theorem parts (hx : (gossipHostsMachine handle max).Reachable Any x) : x.Parts handle max :=
  (parts_invariant handle max).reachable hx

end GossipHosts

end Iroh
