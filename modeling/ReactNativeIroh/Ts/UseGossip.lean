import ReactNativeIroh.Lib.Effect
import ReactNativeIroh.Ts.AppendCapped
import ReactNativeIroh.Ts.Gossip
import ReactNativeIroh.Ts.JsString

/-!
# The hook `useGossip`

Setting the effect up clears the state and subscribes, unless there is no endpoint or the
endpoint refuses.  Then three things go on beside each other: the promise `joined`, and one
loop over each of the two streams.  The cleanup unsubscribes.

What the component shows is told by the callbacks of the mounted run (`GossipHistory`): the
messages and the neighbor events among them, the failures, and the signs that count, the
first sign that the topic was joined and the end of the messages.  The end may come before
that sign, and then the topic is shown as joined although no broadcast is possible.
-/

namespace Iroh

open Transition

inductive GossipStatus where
  | joining
  | joined
  | closed
  | error
deriving DecidableEq

/-- The state of the component, and the ref to its subscription. -/
structure UseGossip where
  messages : List GossipMessage := []
  neighbors : List GossipNeighborEvent := []
  status : GossipStatus := .joining
  error : Option IrohError := none
  subscriptionRef : Option ℕ := none

/-- `setStatus`, which never takes an error back. -/
def UseGossip.setStatus (status : GossipStatus) (v : UseGossip) : UseGossip :=
  { v with status := if v.status = .error then v.status else status }

/-- What the effect is set up with: what `subscribe` does, unless there is no endpoint, and
the option `retain`. -/
structure GossipDeps where
  subscribe : Option (Except IrohError ℕ)
  retain : Option Number

/-- A loop over a stream. -/
inductive StreamLoop where
  | running
  | ended
  | failed
deriving DecidableEq

inductive GossipSign where
  | joined
  | ended
deriving DecidableEq

def GossipSign.status : GossipSign → GossipStatus
  | joined => .joined
  | ended => .closed

/-- One run of the effect. -/
structure GossipEffect where
  active : Bool := true
  joinedOnce : Bool := false
  retain : Number
  subscription : Option ℕ
  joinSettled : Bool := false
  messageLoop : StreamLoop := .running
  neighborLoop : StreamLoop := .running
  unsubscribed : ℕ := 0

/-- The promise `joined` settles, or a stream goes on. -/
inductive GossipCallback where
  | joined
  | joinFailed (error : IrohError)
  | message (m : GossipMessage)
  | messagesEnd
  | messagesFail (error : IrohError)
  | neighbor (e : GossipNeighborEvent)
  | neighborsEnd
  | neighborsFail (error : IrohError)

namespace GossipEffect

def DEFAULT_RETAINED : Number := .ofNat 500

def markJoined : GossipEffect × UseGossip → GossipEffect × UseGossip
  | (x, v) =>
      if x.joinedOnce then (x, v)
      else ({ x with joinedOnce := true }, UseGossip.setStatus .joined v)

def fail (error : IrohError) : GossipEffect × UseGossip → GossipEffect × UseGossip
  | (x, v) =>
      if x.active then (x, { v with status := .error, error := some error })
      else (x, v)

def markClosed : GossipEffect × UseGossip → GossipEffect × UseGossip
  | (x, v) =>
      if x.active then (x, UseGossip.setStatus .closed { v with subscriptionRef := none })
      else (x, v)

/-- The body of the loop over the messages, which leaves the loop when the run was cleaned
up. -/
def onMessage (m : GossipMessage) : GossipEffect × UseGossip → GossipEffect × UseGossip
  | (x, v) =>
      if x.active then
        let (x, v) := markJoined (x, v)
        (x, { v with messages := appendCapped v.messages m x.retain })
      else markClosed ({ x with messageLoop := .ended }, v)

/-- The body of the loop over the neighbor events. -/
def onNeighbor (e : GossipNeighborEvent) : GossipEffect × UseGossip → GossipEffect × UseGossip
  | (x, v) =>
      if x.active then
        let (x, v) := if e.type = .up then markJoined (x, v) else (x, v)
        (x, { v with neighbors := appendCapped v.neighbors e x.retain })
      else ({ x with neighborLoop := .ended }, v)

def setup (deps : GossipDeps) (v : UseGossip) : GossipEffect × UseGossip :=
  let v : UseGossip :=
    { v with messages := [], neighbors := [], status := .joining, error := none }
  let x : GossipEffect := { retain := deps.retain.getD DEFAULT_RETAINED, subscription := none }
  match deps.subscribe with
  | none => (x, v)
  | some (.error error) => fail error (x, v)
  | some (.ok subscription) =>
      ({ x with subscription := some subscription },
        { v with subscriptionRef := some subscription })

/-- What a run without a subscription started is nothing, so nothing comes of it. -/
def handle (e : GossipCallback) (x : GossipEffect) (v : UseGossip) :
    Option (GossipEffect × UseGossip) :=
  if x.subscription = none then none
  else
    match e with
    | .joined =>
        if x.joinSettled then none
        else
          let x := { x with joinSettled := true }
          some (if x.active then markJoined (x, v) else (x, v))
    | .joinFailed error =>
        if x.joinSettled then none else some (fail error ({ x with joinSettled := true }, v))
    | .message m => if x.messageLoop = .running then some (onMessage m (x, v)) else none
    | .messagesEnd =>
        if x.messageLoop = .running then some (markClosed ({ x with messageLoop := .ended }, v))
        else none
    | .messagesFail error =>
        if x.messageLoop = .running then some (fail error ({ x with messageLoop := .failed }, v))
        else none
    | .neighbor e => if x.neighborLoop = .running then some (onNeighbor e (x, v)) else none
    | .neighborsEnd =>
        if x.neighborLoop = .running then some ({ x with neighborLoop := .ended }, v) else none
    | .neighborsFail error =>
        if x.neighborLoop = .running then some (fail error ({ x with neighborLoop := .failed }, v))
        else none

/-- The effect returns a cleanup function only when it has subscribed. -/
def cleanup (x : GossipEffect) (v : UseGossip) : GossipEffect × UseGossip :=
  if x.subscription = none then (x, v)
  else
    ({ x with active := false, unsubscribed := x.unsubscribed + 1 },
      { v with subscriptionRef := none })

/-- The subscription a broadcast goes to. -/
def broadcast (v : UseGossip) (text : JsString) : Except IrohError (ℕ × JsString) :=
  match v.subscriptionRef with
  | none => .error ⟨.invalidHandle, "gossip subscription is not active"⟩
  | some subscription => .ok (subscription, text)

end GossipEffect

namespace GossipCallback

@[simp] def message? : GossipCallback → Option GossipMessage
  | .message m => some m
  | _ => none

@[simp] def neighbor? : GossipCallback → Option GossipNeighborEvent
  | .neighbor e => some e
  | _ => none

@[simp] def error? : GossipCallback → Option IrohError
  | .joinFailed error => some error
  | .messagesFail error => some error
  | .neighborsFail error => some error
  | _ => none

/-- What a callback says of the topic.  Traffic is a sign that it was joined. -/
@[simp] def sign? : GossipCallback → Option GossipSign
  | .joined => some .joined
  | .message _ => some .joined
  | .messagesEnd => some .ended
  | .neighbor e => if e.type = .up then some .joined else none
  | _ => none

end GossipCallback

namespace GossipDeps

def subscription (deps : GossipDeps) : Option ℕ := deps.subscribe.bind Except.toOption

/-- The error `subscribe` throws, if it throws one. -/
def refusal : GossipDeps → List IrohError
  | ⟨some (.error error), _⟩ => [error]
  | _ => []

end GossipDeps

/-- What a run was set up with, and what its callbacks were. -/
@[ext] structure GossipHistory where
  retain : Number
  subscription : Option ℕ
  heard : List GossipMessage
  noticed : List GossipNeighborEvent
  failures : List IrohError
  signs : List GossipSign

namespace GossipHistory

/-- The messages and events in their order, the failures, and each sign where it was first
given. -/
def of (deps : GossipDeps) (es : List GossipCallback) : GossipHistory where
  retain := deps.retain.getD GossipEffect.DEFAULT_RETAINED
  subscription := deps.subscription
  heard := es.filterMap GossipCallback.message?
  noticed := es.filterMap GossipCallback.neighbor?
  failures := deps.refusal ++ es.filterMap GossipCallback.error?
  signs := (es.filterMap GossipCallback.sign?).eraseDups

/-- An error once anything failed, and otherwise what the last sign says. -/
def status (h : GossipHistory) : GossipStatus :=
  if h.failures ≠ [] then .error
  else (h.signs.getLast?.map GossipSign.status).getD .joining

/-- A sign that was given before says nothing new. -/
def signed (s : GossipSign) (h : GossipHistory) : GossipHistory :=
  if s ∈ h.signs then h else { h with signs := h.signs ++ [s] }

def failed (error : IrohError) (h : GossipHistory) : GossipHistory :=
  { h with failures := h.failures ++ [error] }

/-- What one more callback adds. -/
def after (h : GossipHistory) : GossipCallback → GossipHistory
  | .joined => h.signed .joined
  | .joinFailed error => h.failed error
  | .message m => { h.signed .joined with heard := h.heard ++ [m] }
  | .messagesEnd => h.signed .ended
  | .messagesFail error => h.failed error
  | .neighbor e =>
      if e.type = .up then { h.signed .joined with noticed := h.noticed ++ [e] }
      else { h with noticed := h.noticed ++ [e] }
  | .neighborsEnd => h
  | .neighborsFail error => h.failed error

end GossipHistory

namespace GossipEffect

/-- The mounted run is subscribed, and what it was told is what is shown. -/
structure Live (h : GossipHistory) (x : GossipEffect) (v : UseGossip) : Prop where
  active : x.active = true
  unsubscribed : x.unsubscribed = 0
  retain : x.retain = h.retain
  subscription : x.subscription = h.subscription
  messages : v.messages = lastItems (retained h.retain) h.heard
  neighbors : v.neighbors = lastItems (retained h.retain) h.noticed
  status : v.status = h.status
  error : v.error = h.failures.getLast?
  subscriptionRef : v.subscriptionRef = if x.messageLoop = .ended then none else x.subscription
  joinedOnce : .joined ∈ h.signs ↔ x.joinedOnce = true
  ended : .ended ∈ h.signs ↔ x.messageLoop = .ended

/-- A run that was cleaned up has unsubscribed, once. -/
structure Stale (x : GossipEffect) : Prop where
  active : x.subscription ≠ none → x.active = false
  unsubscribed : x.unsubscribed = if x.subscription = none then 0 else 1

end GossipEffect

def useGossip : Effect GossipDeps GossipEffect UseGossip GossipCallback where
  setup := GossipEffect.setup
  handle := GossipEffect.handle
  cleanup := GossipEffect.cleanup

namespace GossipHistory

variable {hist : GossipHistory} {s : GossipSign}

theorem eraseDups_concat (signs : List GossipSign) (s : GossipSign) :
    (signs ++ [s]).eraseDups = if s ∈ signs then signs.eraseDups else signs.eraseDups ++ [s] := by
  rw [List.eraseDups_append, List.removeAll]
  by_cases hs : s ∈ signs <;> simp [hs, List.eraseDups_cons]

@[simp] theorem signed_retain : (hist.signed s).retain = hist.retain := by
  unfold signed
  split <;> rfl

@[simp] theorem signed_subscription : (hist.signed s).subscription = hist.subscription := by
  unfold signed
  split <;> rfl

@[simp] theorem signed_heard : (hist.signed s).heard = hist.heard := by
  unfold signed
  split <;> rfl

@[simp] theorem signed_noticed : (hist.signed s).noticed = hist.noticed := by
  unfold signed
  split <;> rfl

@[simp] theorem signed_failures : (hist.signed s).failures = hist.failures := by
  unfold signed
  split <;> rfl

@[simp] theorem signed_signs : (hist.signed s).signs =
    if s ∈ hist.signs then hist.signs else hist.signs ++ [s] := by
  unfold signed
  split <;> rfl

/-- One more callback adds to the history what it says. -/
theorem of_concat (deps : GossipDeps) (es : List GossipCallback) (e : GossipCallback) :
    of deps (es ++ [e]) = (of deps es).after e := by
  cases e with
  | joined => ext1 <;> simp [after, of, eraseDups_concat]
  | joinFailed error => ext1 <;> simp [after, failed, of, List.filterMap_cons]
  | message m => ext1 <;> simp [after, of, eraseDups_concat]
  | messagesEnd => ext1 <;> simp [after, of, eraseDups_concat]
  | messagesFail error => ext1 <;> simp [after, failed, of, List.filterMap_cons]
  | neighbor e =>
      by_cases hup : e.type = .up
      · ext1 <;> simp [after, hup, of, eraseDups_concat]
      · ext1 <;> simp [after, hup, of]
  | neighborsEnd => ext1 <;> simp [after, of, List.filterMap_cons]
  | neighborsFail error => ext1 <;> simp [after, failed, of, List.filterMap_cons]

end GossipHistory

namespace GossipEffect

variable {x x' : GossipEffect} {v v' : UseGossip} {hist : GossipHistory}

/-- A sign shows unless something has failed. -/
theorem setStatus_sign {s : GossipSign} (h : v.status = hist.status) (hnew : s ∉ hist.signs) :
    (UseGossip.setStatus s.status v).status = (hist.signed s).status := by
  simp only [UseGossip.setStatus, h, GossipHistory.status, GossipHistory.signed_failures,
    GossipHistory.signed_signs, if_neg hnew, List.getLast?_append, List.getLast?_singleton,
    Option.some_or, Option.map_some, Option.getD_some]
  by_cases hfailures : hist.failures = []
  · have hne : (hist.signs.getLast?.map GossipSign.status).getD .joining ≠ .error := by
      cases hist.signs.getLast? with
      | none => nofun
      | some s => cases s <;> nofun
    simp [hfailures, hne]
  · simp [hfailures]

theorem Live.markJoined (h : Live hist x v) :
    Live (hist.signed .joined) (markJoined (x, v)).1 (GossipEffect.markJoined (x, v)).2 := by
  simp only [GossipEffect.markJoined]
  split
  · next hjoined =>
    rwa [GossipHistory.signed, if_pos (h.joinedOnce.mpr hjoined)]
  · next hnot =>
    have hnew : .joined ∉ hist.signs := fun hmem => hnot (h.joinedOnce.mp hmem)
    have hstatus := setStatus_sign h.status hnew
    rw [GossipHistory.signed, if_neg hnew] at hstatus ⊢
    refine ⟨h.active, h.unsubscribed, h.retain, h.subscription, h.messages, h.neighbors, hstatus,
      h.error, h.subscriptionRef, ?_, ?_⟩
    · simp
    · simpa using h.ended

theorem Live.fail (h : Live hist x v) (error : IrohError) :
    Live (hist.failed error) (fail error (x, v)).1 (GossipEffect.fail error (x, v)).2 := by
  rw [GossipEffect.fail, if_pos h.active]
  refine ⟨h.active, h.unsubscribed, h.retain, h.subscription, h.messages, h.neighbors, ?_, ?_,
    h.subscriptionRef, h.joinedOnce, h.ended⟩
  · exact (if_pos (by simp [GossipHistory.failed])).symm
  · simp [GossipHistory.failed]

/-- The loop over the messages ends. -/
theorem Live.markClosed (h : Live hist x v) (hrunning : x.messageLoop = .running) :
    Live (hist.signed .ended) (markClosed ({ x with messageLoop := .ended }, v)).1
      (GossipEffect.markClosed ({ x with messageLoop := .ended }, v)).2 := by
  have hnew : .ended ∉ hist.signs := fun hmem => by simpa [hrunning] using h.ended.mp hmem
  rw [GossipEffect.markClosed, if_pos h.active]
  have hstatus : (UseGossip.setStatus .closed { v with subscriptionRef := none }).status =
      (hist.signed .ended).status := setStatus_sign (s := .ended) h.status hnew
  rw [GossipHistory.signed, if_neg hnew] at hstatus ⊢
  refine ⟨h.active, h.unsubscribed, h.retain, h.subscription, h.messages, h.neighbors, hstatus,
    h.error, rfl, ?_, ?_⟩
  · simpa using h.joinedOnce
  · simp

theorem Live.onMessage (h : Live hist x v) (m : GossipMessage) :
    Live { hist.signed .joined with heard := hist.heard ++ [m] } (onMessage m (x, v)).1
      (GossipEffect.onMessage m (x, v)).2 := by
  have hj := h.markJoined
  rw [GossipEffect.onMessage, if_pos h.active]
  refine ⟨hj.active, hj.unsubscribed, hj.retain, hj.subscription, ?_, hj.neighbors, hj.status,
    hj.error, hj.subscriptionRef, hj.joinedOnce, hj.ended⟩
  have hmessages := hj.messages
  rw [GossipHistory.signed_heard] at hmessages
  rw [← appendCapped_lastItems, ← hmessages, ← hj.retain]

theorem Live.appendNeighbor (h : Live hist x v) (e : GossipNeighborEvent) :
    Live { hist with noticed := hist.noticed ++ [e] } x
      { v with neighbors := appendCapped v.neighbors e x.retain } := by
  refine ⟨h.active, h.unsubscribed, h.retain, h.subscription, h.messages, ?_, h.status, h.error,
    h.subscriptionRef, h.joinedOnce, h.ended⟩
  rw [← appendCapped_lastItems, ← h.neighbors, ← h.retain]

theorem Live.onNeighbor (h : Live hist x v) (e : GossipNeighborEvent) :
    Live (hist.after (.neighbor e)) (onNeighbor e (x, v)).1
      (GossipEffect.onNeighbor e (x, v)).2 := by
  rw [GossipEffect.onNeighbor, if_pos h.active, GossipHistory.after]
  split
  · have hj := h.markJoined.appendNeighbor e
    rwa [GossipHistory.signed_noticed] at hj
  · exact h.appendNeighbor e

/-- The promise settles. -/
theorem Live.settled (h : Live hist x v) : Live hist { x with joinSettled := true } v :=
  ⟨h.active, h.unsubscribed, h.retain, h.subscription, h.messages, h.neighbors, h.status,
    h.error, h.subscriptionRef, h.joinedOnce, h.ended⟩

/-- The loop over the neighbor events is left. -/
theorem Live.left (h : Live hist x v) (l : StreamLoop) :
    Live hist { x with neighborLoop := l } v :=
  ⟨h.active, h.unsubscribed, h.retain, h.subscription, h.messages, h.neighbors, h.status,
    h.error, h.subscriptionRef, h.joinedOnce, h.ended⟩

/-- The loop over the messages fails, and the subscription stays where broadcasts go. -/
theorem Live.broken (h : Live hist x v) (hrunning : x.messageLoop = .running) :
    Live hist { x with messageLoop := .failed } v := by
  refine ⟨h.active, h.unsubscribed, h.retain, h.subscription, h.messages, h.neighbors, h.status,
    h.error, ?_, h.joinedOnce, ?_⟩
  · simpa [hrunning] using h.subscriptionRef
  · simpa [hrunning] using h.ended

/-- Everything a callback can do. -/
inductive Handles (x : GossipEffect) (v : UseGossip) :
    GossipCallback → GossipEffect × UseGossip → Prop where
  | joined : Handles x v .joined
      (if x.active then GossipEffect.markJoined ({ x with joinSettled := true }, v)
        else ({ x with joinSettled := true }, v))
  | joinFailed (error : IrohError) : Handles x v (.joinFailed error)
      (fail error ({ x with joinSettled := true }, v))
  | message (m : GossipMessage) : Handles x v (.message m) (onMessage m (x, v))
  | messagesEnd : x.messageLoop = .running →
      Handles x v .messagesEnd (markClosed ({ x with messageLoop := .ended }, v))
  | messagesFail (error : IrohError) : x.messageLoop = .running →
      Handles x v (.messagesFail error) (fail error ({ x with messageLoop := .failed }, v))
  | neighbor (e : GossipNeighborEvent) : Handles x v (.neighbor e) (onNeighbor e (x, v))
  | neighborsEnd : Handles x v .neighborsEnd ({ x with neighborLoop := .ended }, v)
  | neighborsFail (error : IrohError) : Handles x v (.neighborsFail error)
      (fail error ({ x with neighborLoop := .failed }, v))

theorem handle_cases {e : GossipCallback} {p : GossipEffect × UseGossip}
    (hs : handle e x v = some p) : x.subscription ≠ none ∧ Handles x v e p := by
  unfold handle at hs
  split at hs
  · cases hs
  next hsub =>
  refine ⟨hsub, ?_⟩
  cases e with
  | joined =>
      obtain ⟨-, ⟨⟩⟩ := Option.ite_none_left_eq_some.mp hs
      exact .joined
  | joinFailed error =>
      obtain ⟨-, ⟨⟩⟩ := Option.ite_none_left_eq_some.mp hs
      exact .joinFailed error
  | message m =>
      obtain ⟨-, ⟨⟩⟩ := Option.ite_none_right_eq_some.mp hs
      exact .message m
  | messagesEnd =>
      obtain ⟨hrunning, ⟨⟩⟩ := Option.ite_none_right_eq_some.mp hs
      exact .messagesEnd hrunning
  | messagesFail error =>
      obtain ⟨hrunning, ⟨⟩⟩ := Option.ite_none_right_eq_some.mp hs
      exact .messagesFail error hrunning
  | neighbor e =>
      obtain ⟨-, ⟨⟩⟩ := Option.ite_none_right_eq_some.mp hs
      exact .neighbor e
  | neighborsEnd =>
      obtain ⟨-, ⟨⟩⟩ := Option.ite_none_right_eq_some.mp hs
      exact .neighborsEnd
  | neighborsFail error =>
      obtain ⟨-, ⟨⟩⟩ := Option.ite_none_right_eq_some.mp hs
      exact .neighborsFail error

/-- The mounted run goes by its history, whatever it is told next. -/
theorem handle_live {e : GossipCallback} {p : GossipEffect × UseGossip} (h : Live hist x v)
    (hs : handle e x v = some p) : Live (hist.after e) p.1 p.2 := by
  cases (handle_cases hs).2 with
  | joined =>
      rw [if_pos h.active]
      exact h.settled.markJoined
  | joinFailed error => exact h.settled.fail error
  | message m => exact h.onMessage m
  | messagesEnd hrunning => exact h.markClosed hrunning
  | messagesFail error hrunning => exact (h.broken hrunning).fail error
  | neighbor e => exact h.onNeighbor e
  | neighborsEnd => exact h.left .ended
  | neighborsFail error => exact (h.left .failed).fail error

/-- What a callback keeps of a run that was cleaned up. -/
structure Unmoved (x : GossipEffect) (v : UseGossip) (p : GossipEffect × UseGossip) : Prop where
  subscription : p.1.subscription = x.subscription
  active : p.1.active = x.active
  unsubscribed : p.1.unsubscribed = x.unsubscribed
  view : p.2 = v

theorem Handles.unmoved {e : GossipCallback} {p : GossipEffect × UseGossip}
    (hs : Handles x v e p) (h : ¬ x.active = true) : Unmoved x v p := by
  cases hs with
  | joined => rw [if_neg h]; exact ⟨rfl, rfl, rfl, rfl⟩
  | joinFailed error => rw [fail, if_neg h]; exact ⟨rfl, rfl, rfl, rfl⟩
  | message m => rw [onMessage, if_neg h, markClosed, if_neg h]; exact ⟨rfl, rfl, rfl, rfl⟩
  | messagesEnd _ => rw [markClosed, if_neg h]; exact ⟨rfl, rfl, rfl, rfl⟩
  | messagesFail error _ => rw [fail, if_neg h]; exact ⟨rfl, rfl, rfl, rfl⟩
  | neighbor e => rw [onNeighbor, if_neg h]; exact ⟨rfl, rfl, rfl, rfl⟩
  | neighborsEnd => exact ⟨rfl, rfl, rfl, rfl⟩
  | neighborsFail error => rw [fail, if_neg h]; exact ⟨rfl, rfl, rfl, rfl⟩

theorem handle_stale {e : GossipCallback} (h : Stale x) (hs : handle e x v = some (x', v')) :
    Stale x' ∧ v' = v := by
  obtain ⟨hsub, hhandles⟩ := handle_cases hs
  have hactive := h.active hsub
  have hkeep := hhandles.unmoved (by simp [hactive])
  refine ⟨⟨fun _ => hkeep.active.trans hactive, ?_⟩, hkeep.view⟩
  rw [hkeep.unsubscribed, hkeep.subscription, h.unsubscribed]

theorem setup_live (deps : GossipDeps) (h : v.subscriptionRef = none) :
    Live (.of deps []) (setup deps v).1 (setup deps v).2 := by
  obtain ⟨subscribe, retain⟩ := deps
  have hempty : Live ⟨retain.getD DEFAULT_RETAINED, none, [], [], [], []⟩
      { retain := retain.getD DEFAULT_RETAINED, subscription := none }
      { v with messages := [], neighbors := [], status := .joining, error := none } := by
    refine ⟨rfl, rfl, rfl, rfl, ?_, ?_, rfl, rfl, h, by simp, by simp⟩
    · exact foldl_appendCapped [] _
    · exact foldl_appendCapped [] _
  match subscribe with
  | none => exact hempty
  | some (.error error) => exact hempty.fail error
  | some (.ok s) =>
      exact ⟨rfl, rfl, rfl, rfl, hempty.messages, hempty.neighbors, rfl, rfl, rfl,
        hempty.joinedOnce, hempty.ended⟩

theorem cleanup_live (h : Live hist x v) :
    Stale (cleanup x v).1 ∧ (cleanup x v).2.subscriptionRef = none := by
  unfold cleanup
  split
  · next hnone =>
    refine ⟨⟨fun hne => absurd hnone hne, by rw [h.unsubscribed, if_pos hnone]⟩, ?_⟩
    rw [h.subscriptionRef, hnone, ite_self]
  · next hne =>
    refine ⟨⟨fun _ => rfl, ?_⟩, rfl⟩
    show x.unsubscribed + 1 = if x.subscription = none then 0 else 1
    rw [h.unsubscribed, if_neg hne]

theorem sound :
    useGossip.Sound (fun x v => ∃ hist, Live hist x v) Stale
      fun v => v.subscriptionRef = none where
  setup deps _ h := ⟨_, setup_live deps h⟩
  live _ _ _ _ _ := fun ⟨_, h⟩ hs => ⟨_, handle_live h hs⟩
  stale _ _ _ _ _ h hs := handle_stale h hs
  cleanup _ _ := fun ⟨_, h⟩ => cleanup_live h

theorem follows :
    useGossip.Follows (fun v => v.subscriptionRef = none) fun deps es => Live (.of deps es) where
  setup deps _ h := setup_live deps h
  live deps es e _ _ _ _ h hs := GossipHistory.of_concat deps es e ▸ handle_live h hs

/-- A component shows what its mounted run was told. -/
structure Shown (hist : GossipHistory) (v : UseGossip) : Prop where
  /-- The last messages and events that came, as many as are retained. -/
  messages : v.messages = lastItems (retained hist.retain) hist.heard
  neighbors : v.neighbors = lastItems (retained hist.retain) hist.noticed
  /-- A failure for good, and otherwise the last sign. -/
  status : v.status = hist.status
  error : v.error = hist.failures.getLast?
  /-- A broadcast goes to the subscription, and nowhere once its messages have ended. -/
  broadcast : ∀ text p, broadcast v text = .ok p ↔
    .ended ∉ hist.signs ∧ hist.subscription = some p.1 ∧ p.2 = text

/-- What holds of a component that uses a topic, after any run of actions. -/
structure Law (as : List (EffectAction GossipDeps GossipCallback))
    (c : Component GossipEffect UseGossip) : Prop where
  /-- A subscription that the component no longer uses was ended, once. -/
  unsubscribed : ∀ x ∈ c.past, x.unsubscribed = if x.subscription = none then 0 else 1
  /-- The one it uses was not. -/
  subscribed : ∀ x ∈ c.current, x.unsubscribed = 0
  shown : ∀ deps es, Effect.mounted as = some (deps, es) → Shown (.of deps es) c.view
  /-- Nothing is broadcast where nothing is mounted. -/
  unmounted : Effect.mounted as = none → ∀ text, ∃ e, GossipEffect.broadcast c.view text = .error e
  /-- Nothing that comes late is seen. -/
  undisturbed : ∃ d, (useGossip.machine {}).run { view := {} } (as.filter fun a => !a.isLate) =
    some d ∧ Effect.Shows c d

theorem Live.shown (h : Live hist x v) : Shown hist v where
  messages := h.messages
  neighbors := h.neighbors
  status := h.status
  error := h.error
  broadcast text p := by
    rw [GossipEffect.broadcast, h.subscriptionRef, h.ended, ← h.subscription]
    by_cases hended : x.messageLoop = .ended
    · simp [hended]
    · cases hsub : x.subscription with
      | none => simp [hended]
      | some s =>
          obtain ⟨i, t⟩ := p
          simp [hended, eq_comm]

theorem useGossip_law {as : List (EffectAction GossipDeps GossipCallback)}
    {c : Component GossipEffect UseGossip}
    (h : (useGossip.machine {}).run { view := {} } as = some c) : Law as c := by
  have hinv : (useGossip.machine {}).Invariant Any _ := sound.invariant rfl
  obtain ⟨hstale, hlive, hidle⟩ := hinv.reachable (Machine.reachable_of_run as rfl h)
  have htold := sound.told follows rfl h
  unfold Effect.Told at htold
  refine ⟨fun x hx => (hstale x hx).unsubscribed, fun x hx => ?_, fun deps es hm => ?_,
    fun hm text => ?_, sound.shows_run (hinv.init _ rfl) ⟨rfl, rfl⟩ h⟩
  · obtain ⟨hist, hx⟩ := hlive x hx
    exact hx.unsubscribed
  · rw [hm] at htold
    generalize c.current = current at htold
    cases htold with
    | some hx => exact hx.shown
  · rw [hm] at htold
    generalize hcurrent : c.current = current at htold
    cases htold
    rw [GossipEffect.broadcast, hidle hcurrent]
    exact ⟨_, rfl⟩

/-- A run that keeps two messages hears of a peer, and three messages. -/
def heardThree : List (EffectAction GossipDeps GossipCallback) :=
  [.setup ⟨some (.ok 7), some (.ofNat 2)⟩, .callback (.neighbor ⟨.up, "b"⟩),
    .callback (.message ⟨"one", "b"⟩), .callback .joined, .callback (.message ⟨"two", "b"⟩),
    .callback (.message ⟨"three", "b"⟩)]

/-- It is cleaned up, and a message of it comes late.  The next run keeps no message, which
is one. -/
def keptOne : List (EffectAction GossipDeps GossipCallback) :=
  heardThree ++ [.cleanup, .setup ⟨some (.ok 8), some (.ofNat 0)⟩,
    .late 0 (.message ⟨"four", "b"⟩), .callback (.message ⟨"five", "b"⟩),
    .callback (.message ⟨"six", "b"⟩)]

/-- The messages of a third run end before it is joined. -/
def endedUnjoined : List (EffectAction GossipDeps GossipCallback) :=
  keptOne ++ [.cleanup, .setup ⟨some (.ok 9), none⟩, .callback .messagesEnd, .callback .joined]

def componentAfter (as : List (EffectAction GossipDeps GossipCallback)) :
    Component GossipEffect UseGossip :=
  ((useGossip.machine {}).run { view := {} } as).getD { view := {} }

theorem run_componentAfter {as : List (EffectAction GossipDeps GossipCallback)}
    (h : ((useGossip.machine {}).run { view := {} } as).isSome = true) :
    (useGossip.machine {}).run { view := {} } as = some (componentAfter as) := by
  obtain ⟨c, hc⟩ := Option.isSome_iff_exists.mp h
  rw [componentAfter, hc]
  rfl

/-- Two messages are shown of the three, the late one is not, and a topic shown as joined
refuses a broadcast. -/
theorem useGossip_law_ended :
    (Law heardThree (componentAfter heardThree) ∧
      (componentAfter heardThree).view.messages = [⟨"two", "b"⟩, ⟨"three", "b"⟩] ∧
      (componentAfter heardThree).view.neighbors = [⟨.up, "b"⟩] ∧
      (componentAfter heardThree).view.status = .joined ∧
      broadcast (componentAfter heardThree).view [104, 105] = .ok (7, [104, 105])) ∧
    (Law keptOne (componentAfter keptOne) ∧
      (componentAfter keptOne).past.map GossipEffect.unsubscribed = [1] ∧
      (componentAfter keptOne).view.messages = [⟨"six", "b"⟩]) ∧
    Law endedUnjoined (componentAfter endedUnjoined) ∧
      (componentAfter endedUnjoined).past.map GossipEffect.unsubscribed = [1, 1] ∧
      (componentAfter endedUnjoined).view.messages = [] ∧
      (componentAfter endedUnjoined).view.status = .joined ∧
      broadcast (componentAfter endedUnjoined).view [104, 105] =
        .error ⟨.invalidHandle, "gossip subscription is not active"⟩ := by
  refine ⟨⟨useGossip_law (run_componentAfter ?_), ?_, ?_, ?_, ?_⟩,
    ⟨useGossip_law (run_componentAfter ?_), ?_, ?_⟩, useGossip_law (run_componentAfter ?_),
    ?_, ?_, ?_, ?_⟩
  all_goals decide +kernel

end GossipEffect

end Iroh
