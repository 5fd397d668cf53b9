import ReactNativeIroh.Lib.Machine
import ReactNativeIroh.Ts.Gossip
import ReactNativeIroh.Ts.QueueContents

/-!
# The life cycle of a gossip subscription

`GossipRun` is one `GossipSubscriptionController` with the native subscription it started.  It
keeps the calls of the native side and of `onDispose`, and the events in their order.

A broadcast that finds no id awaits `ready`, and `joined` is a reaction to the same promise.
The reactions run some time after the promise is settled, each in a step of its own.
-/

namespace Iroh

open Transition

namespace GossipEvent

/-- Whether it reports that the join failed. -/
def joinFailed : GossipEvent → Bool
  | .onNeighbor line =>
      match parseNeighbor line with
      | .error _ => true
      | _ => false
  | _ => false

/-- Whether it tears the subscription down. -/
def ends : GossipEvent → Bool
  | .unsubscribe => true
  | e => e.joinFailed

/-- The id it brings. -/
def id? : GossipEvent → Option ℕ
  | .onStart subId => some subId
  | _ => none

/-- Whether it is what the native side makes of the join. -/
def settlesJoin (e : GossipEvent) : Bool := e.id?.isSome || e.joinFailed

end GossipEvent

/-- The calls that the controller makes. -/
structure GossipCalls where
  unsubscribed : List ℕ := []
  disposals : ℕ := 0
deriving DecidableEq

def GossipCalls.hooks : GossipHooks GossipCalls where
  unsubscribe subId w := { w with unsubscribed := w.unsubscribed ++ [subId] }
  onDispose w := { w with disposals := w.disposals + 1 }

/-- A call of `broadcast`: it awaits `ready`, it awaits the native call, or it has settled. -/
inductive Broadcast where
  | waiting (text : String)
  | calling (subId : ℕ)
  | settled (error : Option IrohError)
deriving DecidableEq

structure GossipRun where
  controller : GossipSubscriptionController
  native : GossipCalls := {}
  /-- What `joined` was settled with. -/
  joined : Option (Except IrohError Unit) := none
  broadcasts : List Broadcast := []
  /-- The native broadcasts, with their ids. -/
  sent : List (ℕ × String) := []
  history : List GossipEvent := []

/-- What can happen.  `resume` goes on with a broadcast that awaits `ready`, and `broadcasted`
settles the promise of a native broadcast. -/
inductive GossipAction where
  | event (e : GossipEvent)
  | broadcast (text : String)
  | resume (i : ℕ)
  | broadcasted (i : ℕ) (message : Option String)
  | joinedReaction
deriving DecidableEq

namespace GossipRun

def after (e : GossipEvent) (x : GossipRun) : GossipRun :=
  let (controller, native) :=
    GossipSubscriptionController.handle GossipCalls.hooks e (x.controller, x.native)
  { x with controller, native, history := x.history ++ [e] }

/-- `broadcast(text)`, up to its first `await`. -/
def broadcast (text : String) (x : GossipRun) : GossipRun :=
  match x.controller.subId with
  | some subId =>
      { x with
        broadcasts := x.broadcasts ++ [.calling subId]
        sent := x.sent ++ [(subId, text)] }
  | none => { x with broadcasts := x.broadcasts ++ [.waiting text] }

/-- What a broadcast does when `ready` is settled. -/
def resume (i : ℕ) (text : String) (x : GossipRun) : Except IrohError ℕ → GossipRun
  | .ok subId =>
      { x with
        broadcasts := x.broadcasts.set i (.calling subId)
        sent := x.sent ++ [(subId, text)] }
  | .error error => { x with broadcasts := x.broadcasts.set i (.settled (some error)) }

def step (x : GossipRun) : GossipAction → Option GossipRun
  | .event e => some (x.after e)
  | .broadcast text => some (x.broadcast text)
  | .resume i =>
      match x.broadcasts[i]? with
      | some (.waiting text) => x.controller.ready.map (x.resume i text)
      | _ => none
  | .broadcasted i message =>
      match x.broadcasts[i]? with
      | some (.calling _) =>
          some { x with
            broadcasts := x.broadcasts.set i (.settled (message.map IrohError.fromMessage)) }
      | _ => none
  | .joinedReaction =>
      match x.joined with
      | none => x.controller.ready.map fun r => { x with joined := some (r.map fun _ => ()) }
      | some _ => none

/-- Whether the subscription was torn down. -/
def tornDown (x : GossipRun) : Bool := x.history.any GossipEvent.ends

/-- The native side reports one id, or one failure of the join, and not both. -/
def Promised (x : GossipRun) : GossipAction → Prop
  | .event e => e.settlesJoin = true → ∀ e' ∈ x.history, e'.settlesJoin = false
  | _ => True

instance (x : GossipRun) : (a : GossipAction) → Decidable (x.Promised a)
  | .event e =>
      inferInstanceAs (Decidable (e.settlesJoin = true → ∀ e' ∈ x.history, e'.settlesJoin = false))
  | .broadcast _ | .resume _ | .broadcasted _ _ | .joinedReaction => .isTrue trivial

end GossipRun

/-- The machine of one subscription. -/
def gossipMachine : Machine GossipRun GossipAction where
  init x := ∃ capacity, x = { controller := .new capacity }
  step := GossipRun.step

/-! ## The queues of a subscription -/

/-- What a call leaves of a queue: its invariant, and its end. -/
structure MessageQueue.Onward {α ε : Type*} (q q' : MessageQueue α ε) : Prop where
  valid : q.Valid → q'.Valid
  quiet : q.Valid → q.isClosed = true → q'.isClosed = true ∧ q'.delivered = q.delivered

namespace MessageQueue.Onward

open GossipSubscriptionController (hooks)

variable {α : Type*} {q : MessageQueue α IrohError}

theorem lagKeeps : LagKeeps (hooks : QueueHooks α IrohError Unit) := fun _ _ h => h

theorem refl : q.Onward q := ⟨id, fun _ h => ⟨h, rfl⟩⟩

/-- A call that does nothing to a closed queue. -/
theorem of_closed {p : MessageQueue α IrohError × Unit} (hvalid : q.Valid → p.1.Valid)
    (hclosed : q.isClosed = true → p = (q, ())) : q.Onward p.1 := by
  refine ⟨hvalid, fun _ hc => ?_⟩
  rw [hclosed hc]
  exact ⟨hc, rfl⟩

theorem push (v : α) : q.Onward (MessageQueue.push hooks v (q, ())).1 :=
  of_closed (fun h => h.push lagKeeps v ()) fun hc => push_closed _ hc v ()

theorem markLagged : q.Onward (MessageQueue.markLagged hooks (q, ())).1 :=
  of_closed (fun h => h.markLagged lagKeeps ()) fun hc => markLagged_closed _ hc ()

theorem close (error : Option IrohError) : q.Onward (MessageQueue.close hooks error (q, ())).1 :=
  of_closed (fun h => h.close _ error ()) fun hc => close_closed _ hc error ()

theorem next : q.Onward q.next := by
  refine ⟨fun h => h.next, fun h hc => ?_⟩
  have hnext : q.next.isClosed = true := (next_isClosed q).trans hc
  refine ⟨hnext, ?_⟩
  have hheld := next_held q
  rwa [held, held, h.next.drained hnext, h.drained hc, List.append_nil, List.append_nil] at hheld

end MessageQueue.Onward

namespace GossipSubscriptionController

/-- Only the queues change. -/
structure Still (c c' : GossipSubscriptionController) : Prop where
  messages : c.messageQueue.Onward c'.messageQueue
  neighbors : c.neighborQueue.Onward c'.neighborQueue
  subId : c'.subId = c.subId
  disposed : c'.disposed = c.disposed
  ready : c'.ready = c.ready

theorem Still.refl (c : GossipSubscriptionController) : c.Still c :=
  ⟨.refl, .refl, rfl, rfl, rfl⟩

/-- Everything a neighbor line can do. -/
theorem onNeighbor_cases (line : String) (c : GossipSubscriptionController) (w : GossipCalls) :
    (∃ c', onNeighbor GossipCalls.hooks line (c, w) = (c', w) ∧ c.Still c' ∧
      ((GossipEvent.onNeighbor line).joinFailed = true → c.disposed = true)) ∨
    (c.disposed = false ∧ (GossipEvent.onNeighbor line).joinFailed = true ∧ ∃ error,
      onNeighbor GossipCalls.hooks line (c, w) =
        (({ c with disposed := true }.settleReady (.error error)).closeQueues (some error),
          GossipCalls.hooks.onDispose w)) := by
  simp only [onNeighbor, GossipEvent.joinFailed]
  cases parseNeighbor line with
  | lagged => exact .inl ⟨_, rfl, ⟨.markLagged, .refl, rfl, rfl, rfl⟩, Bool.noConfusion⟩
  | change e => exact .inl ⟨_, rfl, ⟨.refl, .push e, rfl, rfl, rfl⟩, Bool.noConfusion⟩
  | ignored => exact .inl ⟨_, rfl, .refl c, Bool.noConfusion⟩
  | error detail =>
      rcases Bool.eq_false_or_eq_true c.disposed with hd | hd
      · exact .inl ⟨c, if_pos hd, .refl c, fun _ => hd⟩
      · exact .inr ⟨hd, rfl, _, if_neg (Bool.eq_false_iff.mp hd)⟩

/-- Everything an event can do: nothing but to the queues, or it brings the id, in time or too
late, or it tears the subscription down, with the id or without. -/
theorem handle_cases (e : GossipEvent) (c : GossipSubscriptionController) (w : GossipCalls) :
    (∃ c', handle GossipCalls.hooks e (c, w) = (c', w) ∧ c.Still c' ∧ e.id? = none ∧
      (e.ends = true → c.disposed = true)) ∨
    (∃ subId, e = .onStart subId ∧ c.disposed = false ∧ handle GossipCalls.hooks e (c, w) =
      ({ c with subId := some subId }.settleReady (.ok subId), w)) ∨
    (∃ subId, e = .onStart subId ∧ c.disposed = true ∧ handle GossipCalls.hooks e (c, w) =
      ({ c with subId := some subId }, GossipCalls.hooks.unsubscribe subId w)) ∨
    (∃ subId, e = .unsubscribe ∧ c.disposed = false ∧ c.subId = some subId ∧
      handle GossipCalls.hooks e (c, w) =
        ({ c with disposed := true }.closeQueues none,
          GossipCalls.hooks.onDispose (GossipCalls.hooks.unsubscribe subId w))) ∨
    (c.disposed = false ∧ e.ends = true ∧ e.id? = none ∧
      (c.subId = none ∨ e.joinFailed = true) ∧ ∃ error closing,
        handle GossipCalls.hooks e (c, w) =
          (({ c with disposed := true }.settleReady (.error error)).closeQueues closing,
            GossipCalls.hooks.onDispose w)) := by
  cases e with
  | onStart subId =>
      rcases Bool.eq_false_or_eq_true c.disposed with hd | hd
      · exact .inr (.inr (.inl ⟨subId, rfl, hd, by simp only [handle, onStart, hd, if_true]⟩))
      · refine .inr (.inl ⟨subId, rfl, hd, ?_⟩)
        simp only [handle, onStart, hd, Bool.false_eq_true, if_false]
  | unsubscribe =>
      rcases Bool.eq_false_or_eq_true c.disposed with hd | hd
      · exact .inl ⟨c, if_pos hd, .refl c, rfl, fun _ => hd⟩
      · have hlive : ¬ c.disposed = true := Bool.eq_false_iff.mp hd
        rcases hid : c.subId with _ | subId
        · refine .inr (.inr (.inr (.inr ⟨hd, rfl, rfl, .inl rfl, endedBeforeStart, none, ?_⟩)))
          simp only [handle, unsubscribe, if_neg hlive, hid]
        · refine .inr (.inr (.inr (.inl ⟨subId, rfl, hd, rfl, ?_⟩)))
          simp only [handle, unsubscribe, if_neg hlive, hid]
  | onNeighbor line =>
      rcases onNeighbor_cases line c w with ⟨c', he, hc, hends⟩ | ⟨hd, hf, error, he⟩
      · exact .inl ⟨c', he, hc, rfl, hends⟩
      · exact .inr (.inr (.inr (.inr ⟨hd, hf, rfl, .inr hf, error, some error, he⟩)))
  | onMessage line => exact .inl ⟨_, rfl, ⟨.push _, .refl, rfl, rfl, rfl⟩, rfl, Bool.noConfusion⟩
  | nextMessage => exact .inl ⟨_, rfl, ⟨.next, .refl, rfl, rfl, rfl⟩, rfl, Bool.noConfusion⟩
  | returnMessages =>
      exact .inl ⟨_, rfl, ⟨.close none, .refl, rfl, rfl, rfl⟩, rfl, Bool.noConfusion⟩
  | nextNeighbor => exact .inl ⟨_, rfl, ⟨.refl, .next, rfl, rfl, rfl⟩, rfl, Bool.noConfusion⟩
  | returnNeighbors =>
      exact .inl ⟨_, rfl, ⟨.refl, .close none, rfl, rfl, rfl⟩, rfl, Bool.noConfusion⟩

end GossipSubscriptionController

namespace GossipRun

variable {x y : GossipRun}

/-! ## The invariant -/

/-- The id arrived before the subscription was torn down. -/
def StartedFirst (history : List GossipEvent) : Prop :=
  ∃ before subId later, history = before ++ .onStart subId :: later ∧
    before.any GossipEvent.ends = false

theorem startedFirst_append {history : List GossipEvent} {e : GossipEvent} :
    StartedFirst (history ++ [e]) ↔
      StartedFirst history ∨ history.any GossipEvent.ends = false ∧ e.id?.isSome = true := by
  constructor
  · rintro ⟨before, subId, later, heq, hbefore⟩
    rcases List.eq_nil_or_concat later with rfl | ⟨later', last, rfl⟩
    · obtain ⟨rfl, he⟩ := List.append_inj' heq rfl
      cases he
      exact .inr ⟨hbefore, rfl⟩
    · refine .inl ⟨before, subId, later', ?_, hbefore⟩
      rw [List.concat_eq_append, ← List.cons_append, ← List.append_assoc] at heq
      exact (List.append_inj' heq rfl).1
  · rintro (⟨before, subId, later, rfl, hbefore⟩ | ⟨hends, hid⟩)
    · exact ⟨before, subId, later ++ [e], by simp, hbefore⟩
    · cases e with
      | onStart subId => exact ⟨history, subId, [], rfl, hends⟩
      | _ => cases hid

/-- The invariant of a subscription: what the native side was told goes by the id and the
teardown, and `ready` by which of them came first. -/
structure Sound (x : GossipRun) : Prop where
  disposed : x.controller.disposed = x.tornDown
  disposals : x.native.disposals = if x.controller.disposed then 1 else 0
  started : x.controller.subId.toList = x.history.filterMap GossipEvent.id?
  unsubscribed : x.native.unsubscribed =
    if x.controller.disposed then x.controller.subId.toList else []
  ready : x.controller.disposed = false → x.controller.ready = x.controller.subId.map .ok
  settled : x.controller.disposed = true → x.controller.ready.isSome = true
  subId : ∀ subId, x.controller.ready = some (.ok subId) → x.controller.subId = some subId
  first : (∃ subId, x.controller.ready = some (.ok subId)) ↔ StartedFirst x.history
  joined : ∀ r, x.joined = some r → x.controller.ready.map (Except.map fun _ => ()) = some r
  sent : ∀ p ∈ x.sent, x.controller.subId = some p.1
  messages : x.controller.messageQueue.Valid
  neighbors : x.controller.neighborQueue.Valid
  closed : x.controller.disposed = true →
    x.controller.messageQueue.isClosed = true ∧ x.controller.neighborQueue.isClosed = true

theorem sound_new (capacity : Option Number) : Sound { controller := .new capacity } where
  disposed := rfl
  disposals := rfl
  started := rfl
  unsubscribed := rfl
  ready _ := rfl
  settled := nofun
  subId := nofun
  first := by
    refine ⟨nofun, ?_⟩
    rintro ⟨before, subId, later, heq, -⟩
    cases before with
    | nil => cases heq
    | cons => cases heq
  joined := nofun
  sent := nofun
  messages := MessageQueue.valid_new capacity
  neighbors := MessageQueue.valid_new none
  closed := nofun

theorem any_append_singleton {α : Type*} (p : α → Bool) (l : List α) (a : α) :
    (l ++ [a]).any p = (l.any p || p a) := by
  rw [List.any_append, List.any_cons, List.any_nil, Bool.or_false]

theorem filterMap_append_singleton {α β : Type*} (f : α → Option β) (l : List α) (a : α) :
    (l ++ [a]).filterMap f = l.filterMap f ++ (f a).toList := by
  rw [List.filterMap_append, List.filterMap_cons]
  cases f a with
  | none => rfl
  | some b => rfl

namespace Sound

variable {e : GossipEvent} {c : GossipSubscriptionController} {subId : ℕ}

/-- The id was not heard of when the join settles. -/
theorem unknown (h : x.Sound) (hG : x.Promised (.event e)) (he : e.settlesJoin = true) :
    x.controller.subId = none := by
  have hnone : x.history.filterMap GossipEvent.id? = [] := by
    refine List.filterMap_eq_nil_iff.mpr fun e' he' => ?_
    have := hG he e' he'
    simp only [GossipEvent.settlesJoin, Bool.or_eq_false_iff] at this
    simpa using this.1
  have hstarted := h.started
  rw [hnone] at hstarted
  exact Option.toList_eq_nil_iff.mp hstarted

/-- An event that does nothing but to the queues. -/
theorem still (h : x.Sound) (hc : x.controller.Still c) (hid : e.id? = none)
    (hends : e.ends = true → x.controller.disposed = true) :
    Sound { x with controller := c, history := x.history ++ [e] } where
  disposed := by
    have hdisposed := h.disposed
    rw [hc.disposed, tornDown, any_append_singleton]
    cases he : e.ends with
    | true => rw [Bool.or_true, hends he]
    | false => rw [Bool.or_false]; exact hdisposed
  disposals := by
    rw [hc.disposed]
    exact h.disposals
  started := by
    rw [hc.subId, filterMap_append_singleton, hid, Option.toList_none, List.append_nil]
    exact h.started
  unsubscribed := by
    rw [hc.disposed, hc.subId]
    exact h.unsubscribed
  ready hd := by
    rw [hc.ready, hc.subId]
    exact h.ready (hc.disposed ▸ hd)
  settled hd := by
    rw [hc.ready]
    exact h.settled (hc.disposed ▸ hd)
  subId subId hready := by
    rw [hc.subId]
    exact h.subId subId (hc.ready ▸ hready)
  first := by
    rw [startedFirst_append, hid, hc.ready, h.first]
    simp
  joined r hr := by
    rw [hc.ready]
    exact h.joined r hr
  sent p hp := by
    rw [hc.subId]
    exact h.sent p hp
  messages := hc.messages.valid h.messages
  neighbors := hc.neighbors.valid h.neighbors
  closed hd := by
    obtain ⟨hm, hn⟩ := h.closed (hc.disposed ▸ hd)
    exact ⟨(hc.messages.quiet h.messages hm).1, (hc.neighbors.quiet h.neighbors hn).1⟩

/-- The id comes in time. -/
theorem start (h : x.Sound) (hd : x.controller.disposed = false)
    (hid : x.controller.subId = none) :
    Sound { x with
      controller := { x.controller with subId := some subId }.settleReady (.ok subId)
      history := x.history ++ [.onStart subId] } := by
  have htorn : x.history.any GossipEvent.ends = false := h.disposed.symm.trans hd
  have hready : x.controller.ready = none := by rw [h.ready hd, hid, Option.map_none]
  have hsettled : ({ x.controller with subId := some subId }.settleReady (.ok subId)).ready =
      some (.ok subId) := by
    show x.controller.ready.orElse _ = _
    rw [hready]
    rfl
  refine ⟨?_, h.disposals, ?_, ?_, fun _ => hsettled, fun _ => by rw [hsettled]; rfl,
    fun subId' hs => ?_, ?_, fun r hr => ?_, fun p hp => ?_, h.messages, h.neighbors, h.closed⟩
  · rw [tornDown, any_append_singleton, htorn]
    exact hd
  · rw [filterMap_append_singleton, ← h.started, hid]
    rfl
  · have hnone := h.unsubscribed
    rw [hd] at hnone
    show _ = if x.controller.disposed then _ else _
    rw [hd]
    exact hnone
  · obtain hs := Option.some.inj (hsettled.symm.trans hs)
    rw [← Except.ok.inj hs]
    rfl
  · refine ⟨fun _ => ?_, fun _ => ⟨subId, hsettled⟩⟩
    exact startedFirst_append.mpr (.inr ⟨htorn, rfl⟩)
  · have := h.joined r hr
    rw [hready] at this
    cases this
  · have := h.sent p hp
    rw [hid] at this
    cases this

/-- The id comes too late. -/
theorem startLate (h : x.Sound) (hd : x.controller.disposed = true)
    (hid : x.controller.subId = none) :
    Sound { x with
      controller := { x.controller with subId := some subId }
      native := GossipCalls.hooks.unsubscribe subId x.native
      history := x.history ++ [.onStart subId] } := by
  have htorn : x.history.any GossipEvent.ends = true := h.disposed.symm.trans hd
  refine ⟨?_, h.disposals, ?_, ?_, fun hlive => ?_, h.settled, fun subId' hs => ?_, ?_, h.joined,
    fun p hp => ?_, h.messages, h.neighbors, h.closed⟩
  · rw [tornDown, any_append_singleton, htorn]
    exact hd
  · rw [filterMap_append_singleton, ← h.started, hid]
    rfl
  · have hnone := h.unsubscribed
    rw [hd, hid] at hnone
    show x.native.unsubscribed ++ [subId] = if x.controller.disposed then _ else _
    rw [hd, hnone]
    rfl
  · exact absurd (hd.symm.trans hlive) Bool.noConfusion
  · have := h.subId subId' hs
    rw [hid] at this
    cases this
  · rw [startedFirst_append, htorn, h.first]
    simp
  · have := h.sent p hp
    rw [hid] at this
    cases this

/-- The subscription is torn down, with its id or without: `ready` is rejected if it is not
settled. -/
theorem tearDown (h : x.Sound) (hd : x.controller.disposed = false) (hends : e.ends = true)
    (hid : e.id? = none) (error : IrohError) (closing : Option IrohError) :
    Sound { x with
      controller :=
        ({ x.controller with disposed := true }.settleReady (.error error)).closeQueues closing
      native :=
        { unsubscribed := x.native.unsubscribed ++ x.controller.subId.toList
          disposals := x.native.disposals + 1 }
      history := x.history ++ [e] } := by
  have hready (subId : ℕ) :
      ({ x.controller with disposed := true }.settleReady (.error error)).ready =
        some (.ok subId) ↔ x.controller.ready = some (.ok subId) := by
    show x.controller.ready.orElse _ = _ ↔ _
    cases x.controller.ready with
    | none => simp
    | some r => exact Iff.rfl
  refine ⟨?_, ?_, ?_, ?_, nofun, fun _ => ?_, fun subId hs => ?_, ?_, fun r hr => ?_, h.sent,
    h.messages.close _ closing (), h.neighbors.close _ closing (),
    fun _ => ⟨MessageQueue.close_isClosed _ _ _ _, MessageQueue.close_isClosed _ _ _ _⟩⟩
  · rw [tornDown, any_append_singleton, hends, Bool.or_true]
    rfl
  · have hnone := h.disposals
    rw [hd] at hnone
    show x.native.disposals + 1 = 1
    rw [hnone]
    rfl
  · rw [filterMap_append_singleton, hid, Option.toList_none, List.append_nil]
    exact h.started
  · have hnone := h.unsubscribed
    rw [hd] at hnone
    show x.native.unsubscribed ++ x.controller.subId.toList = x.controller.subId.toList
    rw [hnone]
    rfl
  · show (x.controller.ready.orElse _).isSome = true
    cases x.controller.ready with
    | none => rfl
    | some r => rfl
  · exact h.subId subId ((hready subId).mp hs)
  · rw [startedFirst_append, hid, ← h.first]
    refine (exists_congr hready).trans ?_
    simp
  · have hjoined := h.joined r hr
    show (x.controller.ready.orElse _).map _ = some r
    cases hr' : x.controller.ready with
    | none => rw [hr'] at hjoined; cases hjoined
    | some r' => rw [hr'] at hjoined; exact hjoined

theorem after (h : x.Sound) (hG : x.Promised (.event e)) : (x.after e).Sound := by
  rcases GossipSubscriptionController.handle_cases e x.controller x.native with
    ⟨c, he, hc, hid, hends⟩ | ⟨subId, rfl, hd, he⟩ | ⟨subId, rfl, hd, he⟩ |
    ⟨subId, rfl, hd, hid, he⟩ | ⟨hd, hends, hid, hnone, error, closing, he⟩
  · simp only [GossipRun.after, he]
    exact h.still hc hid hends
  · simp only [GossipRun.after, he]
    exact h.start hd (h.unknown hG rfl)
  · simp only [GossipRun.after, he]
    exact h.startLate hd (h.unknown hG rfl)
  · -- the promise is settled with the id already
    have hready : x.controller.ready = some (.ok subId) := by
      rw [h.ready hd, hid, Option.map_some]
    have hsettle : { x.controller with disposed := true }.settleReady (.error endedBeforeStart) =
        { x.controller with disposed := true } := by
      simp only [GossipSubscriptionController.settleReady, hready, Option.orElse_some]
    have hnative : GossipCalls.hooks.onDispose (GossipCalls.hooks.unsubscribe subId x.native) =
        { unsubscribed := x.native.unsubscribed ++ x.controller.subId.toList
          disposals := x.native.disposals + 1 } := by
      rw [hid]
      rfl
    have htorn := h.tearDown hd (e := .unsubscribe) rfl rfl endedBeforeStart none
    rw [hsettle, ← hnative] at htorn
    simp only [GossipRun.after, he]
    exact htorn
  · have hsubId : x.controller.subId = none := by
      rcases hnone with hsubId | hfailed
      · exact hsubId
      · exact h.unknown hG (by rw [GossipEvent.settlesJoin, hfailed, Bool.or_true])
    have hnative : GossipCalls.hooks.onDispose x.native =
        { unsubscribed := x.native.unsubscribed ++ x.controller.subId.toList
          disposals := x.native.disposals + 1 } := by
      rw [hsubId, Option.toList_none, List.append_nil]
      rfl
    have htorn := h.tearDown hd hends hid error closing
    rw [← hnative] at htorn
    simp only [GossipRun.after, he]
    exact htorn

theorem broadcast (h : x.Sound) (text : String) : (x.broadcast text).Sound := by
  unfold GossipRun.broadcast
  split
  · next subId hs =>
      exact { h with
        sent := List.forall_mem_append.mpr ⟨h.sent, List.forall_mem_singleton.mpr hs⟩ }
  · exact { h with }

theorem resume (h : x.Sound) (i : ℕ) (text : String) {r : Except IrohError ℕ}
    (hr : x.controller.ready = some r) : (x.resume i text r).Sound := by
  cases r with
  | error error => exact { h with }
  | ok subId =>
      exact { h with
        sent := List.forall_mem_append.mpr
          ⟨h.sent, List.forall_mem_singleton.mpr (h.subId subId hr)⟩ }

end Sound

/-- Everything a step can do. -/
theorem step_cases {a : GossipAction} (hy : x.step a = some y) :
    (∃ e, a = .event e ∧ y = x.after e) ∨
    (∃ text, a = .broadcast text ∧ y = x.broadcast text) ∨
    (∃ i text r, a = .resume i ∧ x.broadcasts[i]? = some (.waiting text) ∧
      x.controller.ready = some r ∧ y = x.resume i text r) ∨
    (∃ i message subId, a = .broadcasted i message ∧
      x.broadcasts[i]? = some (.calling subId) ∧
      y = { x with
        broadcasts := x.broadcasts.set i (.settled (message.map IrohError.fromMessage)) }) ∨
    (∃ r, a = .joinedReaction ∧ x.joined = none ∧ x.controller.ready = some r ∧
      y = { x with joined := some (r.map fun _ => ()) }) := by
  cases a with
  | event e => exact .inl ⟨e, rfl, (Option.some.inj hy).symm⟩
  | broadcast text => exact .inr (.inl ⟨text, rfl, (Option.some.inj hy).symm⟩)
  | resume i =>
      simp only [step] at hy
      split at hy
      · next text hi =>
          obtain ⟨r, hr, rfl⟩ := Option.map_eq_some_iff.mp hy
          exact .inr (.inr (.inl ⟨i, text, r, rfl, hi, hr, rfl⟩))
      · cases hy
  | broadcasted i message =>
      simp only [step] at hy
      split at hy
      · next subId hi =>
          exact .inr (.inr (.inr (.inl ⟨i, message, subId, rfl, hi, (Option.some.inj hy).symm⟩)))
      · cases hy
  | joinedReaction =>
      simp only [step] at hy
      split at hy
      · next hj =>
          obtain ⟨r, hr, rfl⟩ := Option.map_eq_some_iff.mp hy
          exact .inr (.inr (.inr (.inr ⟨r, rfl, hj, hr, rfl⟩)))
      · cases hy

theorem Sound.step (h : x.Sound) {a : GossipAction} (hG : x.Promised a)
    (hy : x.step a = some y) : y.Sound := by
  rcases step_cases hy with
    ⟨e, rfl, rfl⟩ | ⟨text, rfl, rfl⟩ | ⟨i, text, r, rfl, -, hr, rfl⟩ |
    ⟨i, message, subId, rfl, -, rfl⟩ | ⟨r, rfl, -, hr, rfl⟩
  · exact h.after hG
  · exact h.broadcast text
  · exact h.resume i text hr
  · exact { h with }
  · refine { h with joined := fun r' hr' => ?_ }
    rw [hr, ← hr']
    rfl

theorem sound_invariant : gossipMachine.Invariant Promised Sound where
  init := by
    rintro _ ⟨capacity, rfl⟩
    exact sound_new capacity
  step _ _ _ hx hG hy := hx.step hG hy

/-! ## The life cycle -/

/-- What a run leaves of a subscription that was torn down. -/
structure Quiet (x y : GossipRun) : Prop where
  tornDown : y.tornDown = true
  messages : y.controller.messageQueue.delivered = x.controller.messageQueue.delivered
  neighbors : y.controller.neighborQueue.delivered = x.controller.neighborQueue.delivered

theorem Sound.quiet_after (h : x.Sound) (hx : x.tornDown = true) (e : GossipEvent) :
    x.Quiet (x.after e) := by
  have hd : x.controller.disposed = true := h.disposed.trans hx
  have htorn : ∀ c w, ({ x with
      controller := c, native := w, history := x.history ++ [e] } : GossipRun).tornDown = true := by
    intro c w
    rw [tornDown, any_append_singleton]
    rw [tornDown] at hx
    rw [hx, Bool.true_or]
  rcases GossipSubscriptionController.handle_cases e x.controller x.native with
    ⟨c, he, hc, -, -⟩ | ⟨subId, -, hlive, -⟩ | ⟨subId, -, -, he⟩ | ⟨subId, -, hlive, -, -⟩ |
    ⟨hlive, -⟩
  · simp only [GossipRun.after, he]
    obtain ⟨hm, hn⟩ := h.closed hd
    exact ⟨htorn _ _, (hc.messages.quiet h.messages hm).2, (hc.neighbors.quiet h.neighbors hn).2⟩
  · exact absurd (hd.symm.trans hlive) Bool.noConfusion
  · simp only [GossipRun.after, he]
    exact ⟨htorn _ _, rfl, rfl⟩
  · exact absurd (hd.symm.trans hlive) Bool.noConfusion
  · exact absurd (hd.symm.trans hlive) Bool.noConfusion

theorem Sound.quiet_step (h : x.Sound) (hx : x.tornDown = true) {a : GossipAction}
    (hy : x.step a = some y) : x.Quiet y := by
  rcases step_cases hy with
    ⟨e, -, rfl⟩ | ⟨text, -, rfl⟩ | ⟨i, text, r, -, -, -, rfl⟩ | ⟨i, message, subId, -, -, rfl⟩ |
    ⟨r, -, -, -, rfl⟩
  · exact h.quiet_after hx e
  · unfold GossipRun.broadcast
    split
    · exact ⟨hx, rfl, rfl⟩
    · exact ⟨hx, rfl, rfl⟩
  · cases r with
    | error error => exact ⟨hx, rfl, rfl⟩
    | ok subId => exact ⟨hx, rfl, rfl⟩
  · exact ⟨hx, rfl, rfl⟩
  · exact ⟨hx, rfl, rfl⟩

theorem Sound.quiet (h : x.Sound) (hx : x.tornDown = true)
    (hy : gossipMachine.Leads Promised x y) : x.Quiet y := by
  refine (hy.keeps (I := fun y => y.Sound ∧ x.Quiet y) ?_ ⟨h, hx, rfl, rfl⟩).2
  rintro y a z ⟨hy, hquiet⟩ hG hz
  have hnext := hy.quiet_step hquiet.tornDown hz
  exact ⟨hy.step hG hz, hnext.tornDown, hnext.messages.trans hquiet.messages,
    hnext.neighbors.trans hquiet.neighbors⟩

/-- A promise is settled once. -/
theorem joined_step {a : GossipAction} (hy : x.step a = some y) {r : Except IrohError Unit}
    (hr : x.joined = some r) : y.joined = some r := by
  rcases step_cases hy with
    ⟨e, -, rfl⟩ | ⟨text, -, rfl⟩ | ⟨i, text, r', -, -, -, rfl⟩ | ⟨i, message, subId, -, -, rfl⟩ |
    ⟨r', -, hnone, -, -⟩
  · exact hr
  · unfold GossipRun.broadcast
    split
    · exact hr
    · exact hr
  · cases r' with
    | error error => exact hr
    | ok subId => exact hr
  · exact hr
  · cases hnone.symm.trans hr

theorem Sound.mem_history (h : x.Sound) {subId : ℕ} :
    .onStart subId ∈ x.history ↔ x.controller.subId = some subId := by
  rw [← Option.mem_toList, h.started, List.mem_filterMap]
  constructor
  · exact fun hmem => ⟨_, hmem, rfl⟩
  · rintro ⟨e, hmem, hid⟩
    cases e with
    | onStart subId' =>
        obtain rfl := Option.some.inj hid
        exact hmem
    | _ => cases hid

/-- What holds of a subscription at every moment of its life. -/
structure LifeCycle (x : GossipRun) : Prop where
  /-- `onDispose` is called by the teardown, and once. -/
  disposed : x.native.disposals = if x.tornDown then 1 else 0
  /-- `joined` settles once. -/
  once : ∀ y, gossipMachine.Leads Promised x y → ∀ r, x.joined = some r → y.joined = some r
  /-- It resolves when the id arrived before the teardown, and rejects otherwise. -/
  resolves : ∀ r, x.joined = some r → (r = .ok () ↔ StartedFirst x.history)
  /-- It is not left pending by either: its reaction is due, and settles it. -/
  settles : x.tornDown = true ∨ StartedFirst x.history → x.joined = none →
    ∃ y r, x.step .joinedReaction = some y ∧ y.joined = some r ∧
      (r = .ok () ↔ StartedFirst x.history)
  /-- After the teardown no broadcast waits for the join: it goes on, and is sent when the id
  arrived first and rejected otherwise. -/
  released : x.tornDown = true → ∀ i text, x.broadcasts[i]? = some (.waiting text) →
    ∃ y, x.step (.resume i) = some y ∧
      ((∃ subId, StartedFirst x.history ∧ .onStart subId ∈ x.history ∧
          y.broadcasts[i]? = some (.calling subId) ∧ y.sent = x.sent ++ [(subId, text)]) ∨
        ∃ error, ¬ StartedFirst x.history ∧ y.broadcasts[i]? = some (.settled (some error)))
  /-- After the teardown the native side was told of it, once, if its id is known. -/
  unsubscribed : x.tornDown = true → ∀ subId, .onStart subId ∈ x.history →
    x.native.unsubscribed = [subId]
  /-- Before, it was told nothing. -/
  live : x.tornDown = false → x.native.unsubscribed = []
  /-- A broadcast is sent with the id that arrived. -/
  sent : ∀ p ∈ x.sent, .onStart p.1 ∈ x.history
  /-- What is received after the teardown is not delivered. -/
  quiet : x.tornDown = true → ∀ y, gossipMachine.Leads Promised x y →
    y.controller.messageQueue.delivered = x.controller.messageQueue.delivered ∧
      y.controller.neighborQueue.delivered = x.controller.neighborQueue.delivered

theorem Sound.lifeCycle (h : x.Sound) : x.LifeCycle where
  disposed := by
    rw [← h.disposed]
    exact h.disposals
  once y hy r hr :=
    hy.keeps (I := fun y => y.joined = some r) (fun _ _ _ hr _ hstep => joined_step hstep hr) hr
  resolves r hr := by
    have hjoined := h.joined r hr
    obtain ⟨r', hr', rfl⟩ := Option.map_eq_some_iff.mp hjoined
    rw [← h.first, hr']
    cases r' with
    | error error => simp [Except.map]
    | ok subId => simp [Except.map]
  settles hover hj := by
    have hready : x.controller.ready.isSome = true := by
      rcases hover with htorn | hfirst
      · exact h.settled (h.disposed.trans htorn)
      · obtain ⟨subId, hs⟩ := h.first.mpr hfirst
        rw [hs]
        rfl
    obtain ⟨r, hr⟩ := Option.isSome_iff_exists.mp hready
    refine ⟨{ x with joined := some (r.map fun _ => ()) }, r.map fun _ => (),
      by simp only [GossipRun.step, hj, hr, Option.map_some], rfl, ?_⟩
    rw [← h.first, hr]
    cases r with
    | error error => simp [Except.map]
    | ok subId => simp [Except.map]
  released htorn i text hi := by
    obtain ⟨r, hr⟩ := Option.isSome_iff_exists.mp (h.settled (h.disposed.trans htorn))
    obtain ⟨hlt, -⟩ := List.getElem?_eq_some_iff.mp hi
    refine ⟨x.resume i text r, by simp only [GossipRun.step, hi, hr, Option.map_some], ?_⟩
    cases r with
    | ok subId =>
        have hfirst := h.first.mp ⟨subId, hr⟩
        have hmem := h.mem_history.mpr (h.subId subId hr)
        exact .inl ⟨subId, hfirst, hmem, List.getElem?_set_self hlt, rfl⟩
    | error error =>
        have hnot : ¬ StartedFirst x.history := fun hfirst => by
          obtain ⟨subId, hs⟩ := h.first.mpr hfirst
          cases hr.symm.trans hs
        exact .inr ⟨error, hnot, List.getElem?_set_self hlt⟩
  unsubscribed htorn subId hmem := by
    rw [h.unsubscribed, h.disposed, htorn, h.mem_history.mp hmem]
    rfl
  live hlive := by
    rw [h.unsubscribed, h.disposed, hlive]
    rfl
  sent p hp := h.mem_history.mpr (h.sent p hp)
  quiet htorn y hy := by
    have hquiet := h.quiet htorn hy
    exact ⟨hquiet.messages, hquiet.neighbors⟩

theorem gossip_life_cycle (hx : gossipMachine.Reachable Promised x) : x.LifeCycle :=
  (sound_invariant.reachable hx).lifeCycle

/-- A broadcast waits, the host unsubscribes, and then the id arrives and a message. -/
def lateStart : List GossipAction :=
  [.broadcast "hi", .event .nextMessage, .event .unsubscribe, .resume 0, .joinedReaction,
    .event (.onStart 5), .event (.onMessage "peer late"), .broadcast "again", .event .unsubscribe]

def lateStartRun : GossipRun :=
  (gossipMachine.run { controller := .new none } lateStart).getD { controller := .new none }

theorem gossip_life_cycle_late :
    lateStartRun.native = { unsubscribed := [5], disposals := 1 } ∧
      lateStartRun.broadcasts = [.settled (some endedBeforeStart), .calling 5] ∧
      lateStartRun.sent = [(5, "again")] ∧
      lateStartRun.joined = some (.error endedBeforeStart) ∧ lateStartRun.LifeCycle :=
  ⟨by decide +kernel, by decide +kernel, by decide +kernel, by decide +kernel,
    gossip_life_cycle (Machine.reachable_getD_of_guarded (M := gossipMachine) ⟨none, rfl⟩
      (by decide +kernel) (by decide +kernel) _)⟩

end GossipRun

end Iroh
