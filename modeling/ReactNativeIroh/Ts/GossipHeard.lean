import ReactNativeIroh.Ts.BridgeLines
import ReactNativeIroh.Ts.GossipRun

/-!
# What a subscription has heard

A callback of the native side brings news: a message, a change of the neighbors, or that
messages were lost on the way.  Each of the two queues relays its news in order.  While it is
open, it holds what came and was not dropped, and it counts what was (`heard`).
-/

namespace Iroh

open Transition

/-- What a callback says. -/
inductive GossipNews where
  | message (m : GossipMessage)
  | change (e : GossipNeighborEvent)
  | lagged
deriving DecidableEq

def GossipNews.message? : GossipNews → Option GossipMessage
  | .message m => some m
  | _ => none

def GossipNews.change? : GossipNews → Option GossipNeighborEvent
  | .change e => some e
  | _ => none

/-- What the host reads from an event.  A line that ends the subscription is no news. -/
def GossipEvent.news? : GossipEvent → Option GossipNews
  | .onMessage line => some (.message (parseMessage line))
  | .onNeighbor line =>
      match parseNeighbor line with
      | .lagged => some .lagged
      | .change e => some (.change e)
      | .error _ | .ignored => none
  | _ => none

/-- What an event of the topic tells the host, across the bridge. -/
def Core.GossipEvent.news? : Core.GossipEvent → Option GossipNews
  | .received deliveredFrom content =>
      some (.message
        { text := JsString.fromNative (String.ofList (Core.Utf8.fromUtf8Lossy content))
          «from» := JsString.fromNative deliveredFrom })
  | .neighborUp id => some (.change ⟨.up, JsString.fromNative id⟩)
  | .neighborDown id => some (.change ⟨.down, JsString.fromNative id⟩)
  | .lagged => some .lagged
  | .error _ => none

namespace MessageQueue

open GossipSubscriptionController (hooks)

variable {α : Type*} {q : MessageQueue α IrohError} {values : List α} {lags : ℕ}

/-- A queue got these values, and was told this often that some were lost. -/
structure Relays (q : MessageQueue α IrohError) (values : List α) (lags : ℕ) : Prop where
  valid : q.Valid
  /-- In order, and no value twice. -/
  held : q.held.Sublist values
  /-- What is not there was counted. -/
  counted : q.isClosed = false → q.held.length + q.dropped = values.length + lags

namespace Relays

theorem new (capacity : Option Number) :
    (MessageQueue.new capacity : MessageQueue α IrohError).Relays [] 0 :=
  ⟨valid_new capacity, .slnil, fun _ => rfl⟩

theorem lagShrinks : LagShrinks (hooks : QueueHooks α IrohError Unit) := fun _ _ _ => .refl _

theorem push (h : q.Relays values lags) (v : α) :
    (MessageQueue.push hooks v (q, ())).1.Relays (values ++ [v]) lags := by
  refine ⟨h.valid.push Onward.lagKeeps v (),
    (push_held lagShrinks h.valid v ()).trans (h.held.append_right [v]), ?_⟩
  rcases push_cases hooks q v () with
    ⟨hc, he⟩ | ⟨hc, p, ps, hw, he⟩ | ⟨hc, -, -, he⟩ | ⟨hc, -, -, oldest, rest, hb, he⟩
  · rw [he]
    exact fun ho => absurd (hc.symm.trans ho) Bool.noConfusion
  · have hcounted := h.counted hc
    have hb : q.buffer = [] := by
      rcases h.valid.exclusive with hb | hb
      · exact hb
      · rw [hw] at hb
        cases hb
    rw [he]
    simp only [MessageQueue.held, MessageQueue.delivered, hb, fulfil_delivered, List.length_append,
      List.length_nil, List.length_singleton] at hcounted ⊢
    exact fun _ => by
      show _ + q.dropped = _
      omega
  · have hcounted := h.counted hc
    rw [he]
    simp only [MessageQueue.held, List.length_append, List.length_singleton] at hcounted ⊢
    exact fun _ => by
      show q.delivered.length + (q.buffer.length + 1) + q.dropped = _
      omega
  · have hcounted := h.counted hc
    rw [he]
    simp only [MessageQueue.held, hb, List.length_append, List.length_cons] at hcounted
    refine fun _ => ?_
    show (q.delivered ++ (rest ++ [v])).length + (q.dropped + 1) = _
    simp only [List.length_append, List.length_singleton]
    omega

theorem markLagged (h : q.Relays values lags) :
    (MessageQueue.markLagged hooks (q, ())).1.Relays values (lags + 1) := by
  refine ⟨h.valid.markLagged Onward.lagKeeps (), ?_, ?_⟩
  · cases hc : q.isClosed with
    | true => rw [markLagged_closed hooks hc]; exact h.held
    | false => rw [markLagged_open hooks hc]; exact h.held
  · cases hc : q.isClosed with
    | true =>
        rw [markLagged_closed hooks hc]
        exact fun ho => absurd (hc.symm.trans ho) Bool.noConfusion
    | false =>
        rw [markLagged_open hooks hc]
        refine fun _ => ?_
        show q.held.length + (q.dropped + 1) = _
        have := h.counted hc
        omega

theorem close (h : q.Relays values lags) (error : Option IrohError) :
    (MessageQueue.close hooks error (q, ())).1.Relays values lags := by
  refine ⟨h.valid.close hooks error (), ?_, fun ho => ?_⟩
  · exact (close_held_sublist hooks h.valid.consumers error ()).trans h.held
  · rw [close_isClosed] at ho
    cases ho

theorem next (h : q.Relays values lags) : q.next.Relays values lags := by
  refine ⟨h.valid.next, ?_, fun ho => ?_⟩
  · rw [next_held]
    exact h.held
  · rw [next_held, next_dropped]
    exact h.counted (q.next_isClosed.symm.trans ho)

end Relays

end MessageQueue

namespace GossipSubscriptionController

open GossipRun (filterMap_append_singleton)

variable {ω : Type*} {c : GossipSubscriptionController}

/-- Both queues relay the news. -/
structure Hears (c : GossipSubscriptionController) (news : List GossipNews) : Prop where
  messages : c.messageQueue.Relays (news.filterMap GossipNews.message?) (news.count .lagged)
  neighbors : c.neighborQueue.Relays (news.filterMap GossipNews.change?) 0

variable {news : List GossipNews}

theorem Hears.message (h : c.Hears news) (m : GossipMessage) :
    Hears { c with messageQueue := (MessageQueue.push hooks m (c.messageQueue, ())).1 }
      (news ++ [.message m]) := by
  refine ⟨?_, ?_⟩
  · rw [filterMap_append_singleton, List.count_append]
    exact h.messages.push m
  · rw [filterMap_append_singleton]
    exact (List.append_nil _).symm ▸ h.neighbors

theorem Hears.change (h : c.Hears news) (e : GossipNeighborEvent) :
    Hears { c with neighborQueue := (MessageQueue.push hooks e (c.neighborQueue, ())).1 }
      (news ++ [.change e]) := by
  refine ⟨?_, ?_⟩
  · rw [filterMap_append_singleton, List.count_append]
    exact (List.append_nil _).symm ▸ h.messages
  · rw [filterMap_append_singleton]
    exact h.neighbors.push e

theorem Hears.lagged (h : c.Hears news) :
    Hears { c with messageQueue := (MessageQueue.markLagged hooks (c.messageQueue, ())).1 }
      (news ++ [.lagged]) := by
  refine ⟨?_, ?_⟩
  · rw [filterMap_append_singleton, List.count_append]
    exact (List.append_nil _).symm ▸ h.messages.markLagged
  · rw [filterMap_append_singleton]
    exact (List.append_nil _).symm ▸ h.neighbors

/-- The end of both streams is no news. -/
theorem Hears.closed (h : c.Hears news) (error : Option IrohError)
    {c' : GossipSubscriptionController} (hm : c'.messageQueue = c.messageQueue)
    (hn : c'.neighborQueue = c.neighborQueue) : (c'.closeQueues error).Hears news := by
  refine ⟨?_, ?_⟩
  · show (MessageQueue.close hooks error (c'.messageQueue, ())).1.Relays _ _
    rw [hm]
    exact h.messages.close error
  · show (MessageQueue.close hooks error (c'.neighborQueue, ())).1.Relays _ _
    rw [hn]
    exact h.neighbors.close error

/-- Every event is handled as the news it is. -/
theorem Hears.handle (h : c.Hears news) (g : GossipHooks ω) (e : GossipEvent) (w : ω) :
    (handle g e (c, w)).1.Hears (news ++ e.news?.toList) := by
  cases e with
  | onMessage line => exact h.message _
  | onNeighbor line =>
      simp only [GossipSubscriptionController.handle, onNeighbor, GossipEvent.news?]
      cases parseNeighbor line with
      | lagged => exact h.lagged
      | change e => exact h.change e
      | ignored => simpa using h
      | error detail =>
          simp only [Option.toList_none, List.append_nil, failJoin]
          split
          · exact h
          · exact h.closed _ rfl rfl
  | onStart subId =>
      simp only [GossipSubscriptionController.handle, onStart, GossipEvent.news?,
        Option.toList_none, List.append_nil]
      split
      · exact ⟨h.messages, h.neighbors⟩
      · exact ⟨h.messages, h.neighbors⟩
  | unsubscribe =>
      simp only [GossipSubscriptionController.handle, unsubscribe, GossipEvent.news?,
        Option.toList_none, List.append_nil]
      split
      · exact h
      · split
        · exact h.closed _ rfl rfl
        · exact h.closed _ rfl rfl
  | nextMessage =>
      show Hears _ (news ++ [])
      rw [List.append_nil]
      exact ⟨h.messages.next, h.neighbors⟩
  | returnMessages =>
      show Hears _ (news ++ [])
      rw [List.append_nil]
      exact ⟨h.messages.close none, h.neighbors⟩
  | nextNeighbor =>
      show Hears _ (news ++ [])
      rw [List.append_nil]
      exact ⟨h.messages, h.neighbors.next⟩
  | returnNeighbors =>
      show Hears _ (news ++ [])
      rw [List.append_nil]
      exact ⟨h.messages, h.neighbors.close none⟩

end GossipSubscriptionController

namespace GossipRun

variable {x : GossipRun}

/-- The news the host was told. -/
def news (x : GossipRun) : List GossipNews := x.history.filterMap GossipEvent.news?

theorem heard_after (h : x.controller.Hears x.news) (e : GossipEvent) :
    (x.after e).controller.Hears (x.after e).news := by
  have hhandle := h.handle GossipCalls.hooks e x.native
  show (GossipSubscriptionController.handle GossipCalls.hooks e (x.controller, x.native)).1.Hears
    ((x.history ++ [e]).filterMap GossipEvent.news?)
  rw [filterMap_append_singleton]
  exact hhandle

theorem heard : gossipMachine.Invariant Any fun x => x.controller.Hears x.news where
  init x hx := by
    obtain ⟨capacity, rfl⟩ := hx
    exact ⟨.new capacity, .new none⟩
  step x a y h _ hy := by
    rcases step_cases hy with
      ⟨e, -, rfl⟩ | ⟨text, -, rfl⟩ | ⟨i, text, r, -, -, -, rfl⟩ | ⟨i, message, subId, -, -, rfl⟩ |
      ⟨r, -, -, -, rfl⟩
    · exact heard_after h e
    · unfold GossipRun.broadcast
      split
      · exact h
      · exact h
    · cases r with
      | error error => exact h
      | ok subId => exact h
    · exact h
    · exact h

end GossipRun

end Iroh
