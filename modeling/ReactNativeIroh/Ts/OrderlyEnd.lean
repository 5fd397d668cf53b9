import ReactNativeIroh.Lib.Channel
import ReactNativeIroh.Ts.Stream

/-!
# A stream that ends in order

The native side delivers chunks, then reports the orderly end, and a consumer
calls `next()` at any moment.  While nothing overflows, the stream implements an
unbounded channel (`Carries`): the consumer has received what it asked for and
what was written, and the rest waits in the buffer.

The end discards that rest, so a consumer that reads on gets every chunk exactly
when it had already asked for all of them (`orderly_end_delivers_iff`).
-/

namespace Iroh

open Ownership Transition

namespace StreamController

variable {ω : Type*}

/-- What races before the end: native reads and the consumer. -/
inductive Race where
  | onData (chunk : Chunk)
  | next
deriving DecidableEq

def Race.event : Race → StreamEvent
  | .onData chunk => .onData chunk
  | .next => .next

/-- The same race on a channel. -/
def Race.channel (c : Channel Chunk) : Race → Channel Chunk
  | .onData chunk => c.write chunk
  | .next => c.ask

/-- The chunks delivered by the native side, in order. -/
def chunksOf : List Race → List Chunk
  | [] => []
  | .onData chunk :: es => chunk :: chunksOf es
  | .next :: es => chunksOf es
termination_by structural es => es

/-- How often the consumer asked. -/
def nextsOf : List Race → ℕ
  | [] => 0
  | .onData _ :: es => nextsOf es
  | .next :: es => nextsOf es + 1
termination_by structural es => es

/-- A new stream after a race. -/
def raced (o : Owner ω) (capacity : Option Number) (es : List Race) (w : ω) :
    StreamController × ω :=
  handleAll o (es.map Race.event) (new capacity, w)

/-- The race, then `onClose("end")`, then `k` more calls of `next()`. -/
def readOut (o : Owner ω) (capacity : Option Number) (es : List Race) (w : ω) (k : ℕ) :
    StreamController × ω :=
  handleAll o (.onClose "end" :: List.replicate k .next) (raced o capacity es w)

/-- What the `next()` calls settled so far gave, in order. -/
def results (s : StreamController) : List (Settled Chunk IrohError) :=
  s.chunks.consumers.outcomes.map Prod.snd

/-- However long the consumer reads on, once it sees the end it has received every
chunk of the race, in order, and then `done`. -/
def DeliversAll (o : Owner ω) (capacity : Option Number) (es : List Race) (w : ω) : Prop :=
  ∀ k, (readOut o capacity es w k).1.results.any Settled.isEnd = true →
    ∃ m, (readOut o capacity es w k).1.results =
      (chunksOf es).map .value ++ List.replicate m .done

/-! ## The stream as a channel -/

/-- The stream implements the channel, and nothing was dropped. -/
structure Carries (s : StreamController) (c : Channel Chunk) : Prop where
  valid : s.Valid
  isOpen : s.chunks.isClosed = false
  kept : s.chunks.dropped = 0
  received : s.results = c.received.map .value
  buffer : s.chunks.buffer = c.pending
  parked : s.chunks.consumers.waiters.length = c.blocked

theorem carries_new (capacity : Option Number) : (new capacity).Carries {} :=
  ⟨valid_new capacity, rfl, rfl, rfl, rfl, rfl⟩

/-- No event takes a drop back. -/
theorem dropped_le_handle (o : Owner ω) (e : StreamEvent) (s : StreamController) (w : ω) :
    s.chunks.dropped ≤ (handle o e (s, w)).1.chunks.dropped := by
  cases e with
  | onData chunk =>
      rcases onData_cases o chunk s w with
        ⟨-, he⟩ | ⟨-, p, ps, -, he⟩ | ⟨-, -, -, he⟩ | ⟨-, -, -, oldest, rest, -, he⟩
      · rw [handle, he]
      · rw [handle, he]; exact Nat.le_refl _
      · rw [handle, he]; exact Nat.le_refl _
      · rw [handle, he, finish_dropped]; exact Nat.le_succ _
  | onClose event => exact (finish_dropped o _ (s, w)).ge
  | close => exact (finish_dropped o none (s, w)).ge
  | next => exact (MessageQueue.next_dropped s.chunks).ge
  | «return» => exact (MessageQueue.close_dropped {} s.chunks none w).ge

theorem dropped_le_handleAll (o : Owner ω) (es : List StreamEvent) (p : StreamController × ω) :
    p.1.chunks.dropped ≤ (handleAll o es p).1.chunks.dropped := by
  induction es generalizing p with
  | nil => exact Nat.le_refl _
  | cons e es ih => exact (dropped_le_handle o e p.1 p.2).trans (ih _)

/-- A chunk is written to the channel, unless it overflows the buffer. -/
theorem Carries.onData {s : StreamController} {c : Channel Chunk} (h : s.Carries c) (o : Owner ω)
    (chunk : Chunk) (w : ω) :
    (onData o chunk (s, w)).1.Carries (c.write chunk) ∨
      (onData o chunk (s, w)).1.chunks.dropped ≠ 0 := by
  have hv := h.valid.onData o chunk w
  have hres := h.received
  have hlen := h.parked
  rcases onData_cases o chunk s w with
    ⟨hc, he⟩ | ⟨hc, p, ps, hw, he⟩ | ⟨hc, hw, hx, he⟩ | ⟨hc, hw, hx, oldest, rest, hb, he⟩
  · exact absurd (h.isOpen.symm.trans hc) Bool.false_ne_true
  · have hblocked : c.blocked ≠ 0 := by
      rw [← hlen, hw]
      exact Nat.succ_ne_zero _
    obtain ⟨hr, hp, hb⟩ := Channel.write_blocked hblocked chunk
    have hbuffer : s.chunks.buffer = [] := by
      rcases h.valid.chunks.exclusive with hbuf | hwait
      · exact hbuf
      · rw [hw] at hwait; cases hwait
    rw [he] at hv ⊢
    refine Or.inl ⟨hv, hc, h.kept, ?_, hbuffer.trans hp.symm, ?_⟩
    · simp only [results, WaiterQueue.fulfil, List.map_append] at hres ⊢
      rw [hres, hr, List.map_append]
      rfl
    · rw [hw, List.length_cons] at hlen
      simp only [WaiterQueue.fulfil]
      omega
  · have hblocked : c.blocked = 0 := by rw [← hlen, hw]; rfl
    obtain ⟨hr, hp, hb⟩ := Channel.write_free hblocked chunk
    rw [he] at hv ⊢
    refine Or.inl ⟨hv, hc, h.kept, hr ▸ hres, ?_, hw ▸ hb.symm⟩
    rw [hp, ← h.buffer]
  · rw [he, finish_dropped]
    exact Or.inr (Nat.succ_ne_zero _)

/-- A request is made of the channel. -/
theorem Carries.next {s : StreamController} {c : Channel Chunk} (h : s.Carries c) :
    StreamController.Carries { s with chunks := s.chunks.next } c.ask := by
  have hv : StreamController.Valid { s with chunks := s.chunks.next } :=
    h.valid.setChunks h.valid.chunks.next (Or.inl (MessageQueue.next_terminal _))
  have hopen := (MessageQueue.next_isClosed s.chunks).trans h.isOpen
  have hkept := (MessageQueue.next_dropped s.chunks).trans h.kept
  have hres := h.received
  rcases MessageQueue.next_cases s.chunks with
    ⟨v, rest, hb, he⟩ | ⟨-, hc, r, consumers, -, -, he⟩ | ⟨hb, hc, he⟩
  · obtain ⟨hr, hp, hz⟩ := Channel.ask_pending (h.buffer.symm.trans hb)
    have hw : s.chunks.consumers.waiters = [] := by
      rcases h.valid.chunks.exclusive with hbuf | hwait
      · rw [hb] at hbuf; cases hbuf
      · exact hwait
    rw [he] at hv hopen hkept ⊢
    refine ⟨hv, hopen, hkept, ?_, hp.symm, ?_⟩
    · simp only [results, WaiterQueue.answer, List.map_append] at hres ⊢
      rw [hres, hr, List.map_append]
      rfl
    · rw [hz]
      exact congrArg List.length hw
  · exact absurd (h.isOpen.symm.trans hc) Bool.false_ne_true
  · obtain ⟨hr, hp, hz⟩ := Channel.ask_blocked (h.buffer.symm.trans hb)
    rw [he] at hv hopen hkept ⊢
    refine ⟨hv, hopen, hkept, hr ▸ hres, hb.trans hp.symm, ?_⟩
    rw [hz, ← h.parked]
    simp [WaiterQueue.park]

/-- A step of the race is a step of the channel, unless it drops something. -/
theorem Carries.step {s : StreamController} {c : Channel Chunk} (h : s.Carries c) (o : Owner ω)
    (e : Race) (w : ω) :
    (handle o e.event (s, w)).1.Carries (e.channel c) ∨
      (handle o e.event (s, w)).1.chunks.dropped ≠ 0 := by
  cases e with
  | onData chunk => exact h.onData o chunk w
  | next => exact Or.inl h.next

/-- A race that drops nothing is a run of the channel. -/
theorem Carries.race {s : StreamController} {c : Channel Chunk} (h : s.Carries c) (o : Owner ω)
    (es : List Race) (w : ω)
    (hkept : (handleAll o (es.map Race.event) (s, w)).1.chunks.dropped = 0) :
    (handleAll o (es.map Race.event) (s, w)).1.Carries (es.foldl Race.channel c) := by
  induction es generalizing s c w with
  | nil => exact h
  | cons e es ih =>
      rcases h.step o e w with hs | hd
      · exact ih hs _ hkept
      · have hle := dropped_le_handleAll o (es.map Race.event) (handle o e.event (s, w))
        have hkept' : (handleAll o (es.map Race.event)
          (handle o e.event (s, w))).1.chunks.dropped = 0 := hkept
        omega

/-- The channel after a race. -/
theorem foldl_channel (es : List Race) (c : Channel Chunk) :
    (es.foldl Race.channel c).written = c.written ++ chunksOf es ∧
      (es.foldl Race.channel c).asked = c.asked + nextsOf es := by
  induction es generalizing c with
  | nil => simp [chunksOf, nextsOf]
  | cons e es ih =>
      obtain ⟨hw, ha⟩ := ih (e.channel c)
      rw [List.foldl_cons, hw, ha]
      cases e with
      | onData chunk => simp [Race.channel, chunksOf, nextsOf]
      | next =>
          simp only [Race.channel, Channel.ask_written, Channel.ask_asked, chunksOf, nextsOf,
            true_and]
          omega

/-! ## The end -/

/-- A consumer that reads on from an ended queue gets `done` each time. -/
theorem results_replicate_next (o : Owner ω) (k : ℕ) {s : StreamController}
    (hb : s.chunks.buffer = []) (ht : s.chunks.consumers.terminal = some none) (w : ω) :
    (handleAll o (List.replicate k .next) (s, w)).1.results
      = s.results ++ List.replicate k .done := by
  induction k generalizing s with
  | zero => simp [handleAll]
  | succ k ih =>
      have hnext : handle o .next (s, w) =
          ({ s with
            chunks := { s.chunks with consumers := s.chunks.consumers.answer .done } }, w) := by
        simp [handle, MessageQueue.next, hb, WaiterQueue.settledResult, ht]
      have hone : handleAll o (List.replicate (k + 1) .next) (s, w) =
          handleAll o (List.replicate k .next) (handle o .next (s, w)) := rfl
      rw [hone, hnext]
      refine Eq.trans (ih ?_ ?_) ?_
      · exact hb
      · exact ht
      simp [results, WaiterQueue.answer, List.replicate_succ]

/-- What the consumer of a channel has received once the stream has ended and it
has read on. -/
theorem Carries.readOut {s : StreamController} {c : Channel Chunk} (h : s.Carries c) (o : Owner ω)
    (k : ℕ) (w : ω) :
    (handleAll o (.onClose "end" :: List.replicate k .next) (s, w)).1.results =
      c.received.map .value ++ List.replicate (c.blocked + k) .done := by
  obtain ⟨ht, hd, -⟩ := h.valid.chunks.consumers.live_undelivered h.isOpen
  have hend : handle o (.onClose "end") (s, w) =
      finish o none (s, w) := by rw [handle, parseCloseEvent_end]
  have hone : handleAll o (.onClose "end" :: List.replicate k .next) (s, w) =
      handleAll o (List.replicate k .next) (handle o (.onClose "end") (s, w)) := rfl
  have hends : (WaiterQueue.endings none s.chunks.consumers.waiters).map Prod.snd =
      List.replicate c.blocked (.done : Settled Chunk IrohError) := by
    rw [← h.parked]
    cases s.chunks.consumers.waiters with
    | nil => rfl
    | cons p ps => simp [WaiterQueue.endings, Function.comp_def, List.replicate_succ]
  rw [hone, hend, finish_open o none (h.valid.open_of_chunks h.isOpen),
    MessageQueue.close_open {} h.isOpen, WaiterQueue.settle_live ht hd,
    results_replicate_next o k rfl rfl, ← h.received, List.replicate_add, ← hends]
  simp [results]

/-- A consumer of a stream that dropped nothing gets every chunk before the orderly
end exactly when it had asked for all of them by then. -/
theorem orderly_end_delivers_iff (o : Owner ω) (capacity : Option Number) (es : List Race) (w : ω)
    (hkept : (raced o capacity es w).1.chunks.dropped = 0) :
    DeliversAll o capacity es w ↔ (chunksOf es).length ≤ nextsOf es := by
  have hcarries : (raced o capacity es w).1.Carries (es.foldl Race.channel {}) :=
    (carries_new capacity).race o es w hkept
  obtain ⟨hwritten, hasked⟩ := foldl_channel es {}
  rw [List.nil_append] at hwritten
  rw [Nat.zero_add] at hasked
  have hread : ∀ k, (readOut o capacity es w k).1.results =
      (es.foldl Race.channel {}).received.map .value ++
        List.replicate ((es.foldl Race.channel {}).blocked + k) .done :=
    fun k => hcarries.readOut o k _
  have hiff := Channel.received_eq_written_iff (c := es.foldl Race.channel {})
  rw [hwritten, hasked] at hiff
  constructor
  · intro hall
    obtain ⟨m, hm⟩ := hall 1 (by simp [hread, List.replicate_succ])
    rw [hread] at hm
    -- both sides are values followed by `done`s, so the values agree
    have hvalues := congrArg (List.filterMap Settled.value?) hm
    have hmap : ∀ cs : List Chunk,
        (cs.map Settled.value).filterMap (Settled.value? : Settled Chunk IrohError → _) = cs := by
      intro cs
      simp [List.filterMap_map, Function.comp_def]
    have hdone : ∀ n, (List.replicate n Settled.done).filterMap
        (Settled.value? : Settled Chunk IrohError → _) = [] := by
      intro n
      simp [List.filterMap_replicate]
    simp only [List.filterMap_append, hmap, hdone, List.append_nil] at hvalues
    exact hiff.1 hvalues
  · intro hle k _
    exact ⟨_, by rw [hread k, hiff.2 hle]⟩

/-- Two chunks, and a consumer that asks for the second one before the end comes. -/
theorem orderly_end_delivers_prompt :
    DeliversAll (ω := Unit) ⟨id, id⟩ none [.next, .onData [1], .onData [2], .next] () :=
  (orderly_end_delivers_iff ⟨id, id⟩ none [.next, .onData [1], .onData [2], .next] ()
    (by decide)).2 (by decide)

/-- One chunk, then the end, then a consumer that starts to read. -/
theorem orderly_end_loses_chunk :
    (raced (ω := Unit) ⟨id, id⟩ none [.onData [1]] ()).1.chunks.dropped = 0 ∧
      ¬ DeliversAll (ω := Unit) ⟨id, id⟩ none [.onData [1]] () := by
  refine ⟨by decide, fun hall => ?_⟩
  obtain ⟨m, hm⟩ := hall 1 (by decide)
  have hresults : (readOut (ω := Unit) ⟨id, id⟩ none [.onData [1]] () 1).1.results = [.done] := by
    decide
  rw [hresults] at hm
  simp [chunksOf] at hm

end StreamController

end Iroh
