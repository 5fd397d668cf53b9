import Mathlib.Data.List.Induction
import ReactNativeIroh.Ts.OrderlyEnd

/-!
# A stream has no holes

`Course` is what a stream is for.  It is a channel until something ends it, and it ends once:
by the native close, by the host's `close()`, or by the first chunk that is more than the
capacity lets wait.  From then on nothing is delivered, and every `next()` sees the end.

A stream whose consumer never calls `return()` follows its course (`Follows`), whatever the
order of the events.
-/

namespace Iroh

open Ownership Transition

/-- The chunk the event delivers. -/
def StreamEvent.chunk? : StreamEvent → Option Chunk
  | .onData chunk => some chunk
  | _ => none

/-- The event on a channel. -/
def StreamEvent.channel (c : Channel Chunk) : StreamEvent → Channel Chunk
  | .onData chunk => c.write chunk
  | .next => c.ask
  | _ => c

/-- The chunks delivered by the native side, in order. -/
def chunksIn (es : List StreamEvent) : List Chunk := es.filterMap StreamEvent.chunk?

/-- What the calls of `next()` give that see the end of a stream, if there are `k`. -/
def endsOf (r : Option IrohError) : ℕ → List (Settled Chunk IrohError)
  | 0 => []
  | k + 1 => (r.elim .done .error) :: List.replicate k .done

/-- What the event ends the stream with, if it ends it. -/
def trigger (capacity : Capacity) (c : Channel Chunk) : StreamEvent → Option (Option IrohError)
  | .onData chunk =>
      if capacity.exceeded (c.write chunk).pending.length then some (some (overflowError 1))
      else none
  | .onClose event => some (parseCloseEvent event)
  | .close => some none
  | .next => none
  | .return => none

/-- What the first event ends the stream with that ends it. -/
def firstTrigger (capacity : Capacity) : Channel Chunk → List StreamEvent →
    Option (Option IrohError)
  | _, [] => none
  | c, e :: es =>
      match trigger capacity c e with
      | some r => some r
      | none => firstTrigger capacity (e.channel c) es
termination_by structural _ es => es

/-- The course of a stream: what was written and asked for until it ended, what it ended with,
and how often the consumer asked after that. -/
structure Course where
  channel : Channel Chunk := {}
  outcome : Option (Option IrohError) := none
  late : ℕ := 0

namespace Course

def step (capacity : Capacity) (x : Course) (e : StreamEvent) : Course :=
  match x.outcome with
  | some _ => if e = .next then { x with late := x.late + 1 } else x
  | none =>
      match trigger capacity x.channel e with
      | some r => { x with outcome := some r }
      | none => { x with channel := e.channel x.channel }

/-- What the consumer has received. -/
def results (x : Course) : List (Settled Chunk IrohError) :=
  x.channel.received.map .value ++
    match x.outcome with
    | none => []
    | some r => endsOf r (x.channel.blocked + x.late)

def run (capacity : Capacity) (es : List StreamEvent) : Course := es.foldl (step capacity) {}

variable {capacity : Capacity} {x : Course}

theorem step_ended {r : Option IrohError} (h : x.outcome = some r) (e : StreamEvent) :
    x.step capacity e = { x with late := x.late + if e = .next then 1 else 0 } := by
  obtain ⟨c, outcome, late⟩ := x
  obtain rfl : outcome = some r := h
  by_cases he : e = .next
  · simp [step, he]
  · simp [step, he]

theorem foldl_ended {r : Option IrohError} (h : x.outcome = some r) (es : List StreamEvent) :
    es.foldl (step capacity) x = { x with late := x.late + es.count .next } := by
  induction es generalizing x with
  | nil => rfl
  | cons e es ih =>
      rw [List.foldl_cons, step_ended h, ih (by exact h), List.count_cons]
      simp only [beq_iff_eq]
      congr 1
      omega

/-- A course ends by the first trigger. -/
theorem foldl_outcome (h : x.outcome = none) (es : List StreamEvent) :
    (es.foldl (step capacity) x).outcome = firstTrigger capacity x.channel es := by
  induction es generalizing x with
  | nil => exact h
  | cons e es ih =>
      rw [List.foldl_cons, firstTrigger]
      cases ht : trigger capacity x.channel e with
      | some r =>
          have hstep : x.step capacity e = { x with outcome := some r } := by
            simp [step, h, ht]
          rw [hstep, foldl_ended (by rfl)]
      | none =>
          have hstep : x.step capacity e = { x with channel := e.channel x.channel } := by
            simp [step, h, ht]
          rw [hstep, ih (by exact h)]

/-- Until the end the channel has every chunk and every request, and afterwards it has those
from before. -/
theorem run_channel (capacity : Capacity) (es : List StreamEvent) :
    (run capacity es).channel.written <+: chunksIn es ∧
      ((run capacity es).outcome = none →
        (run capacity es).channel = ⟨chunksIn es, es.count .next⟩) := by
  induction es using List.reverseRecOn with
  | nil => exact ⟨List.prefix_rfl, fun _ => rfl⟩
  | append_singleton es e ih =>
      obtain ⟨hwritten, hlive⟩ := ih
      have hchunks : chunksIn es <+: chunksIn (es ++ [e]) := by
        rw [chunksIn, chunksIn, List.filterMap_append]
        exact List.prefix_append _ _
      have hrun : run capacity (es ++ [e]) = (run capacity es).step capacity e := by
        rw [run, run, List.foldl_append]
        rfl
      cases ho : (run capacity es).outcome with
      | some r =>
          rw [hrun, step_ended ho]
          exact ⟨hwritten.trans hchunks, fun h => by rw [ho] at h; cases h⟩
      | none =>
          have hchannel := hlive ho
          cases ht : trigger capacity (run capacity es).channel e with
          | some r =>
              have hstep : (run capacity es).step capacity e =
                  { run capacity es with outcome := some r } := by
                simp [step, ho, ht]
              rw [hrun, hstep]
              exact ⟨hwritten.trans hchunks, nofun⟩
          | none =>
              have hstep : (run capacity es).step capacity e =
                  { run capacity es with channel := e.channel (run capacity es).channel } := by
                simp [step, ho, ht]
              have hnew : e.channel (run capacity es).channel =
                  ⟨chunksIn (es ++ [e]), (es ++ [e]).count .next⟩ := by
                rw [hchannel, chunksIn, chunksIn, List.filterMap_append, List.count_append]
                cases e with
                | onData chunk => simp [StreamEvent.channel, Channel.write, StreamEvent.chunk?]
                | next => simp [StreamEvent.channel, Channel.ask, StreamEvent.chunk?]
                | _ => simp [StreamEvent.channel, StreamEvent.chunk?]
              rw [hrun, hstep, hnew]
              exact ⟨List.prefix_rfl, fun _ => rfl⟩

end Course

namespace StreamController

variable {ω : Type*} {s : StreamController} {c : Channel Chunk} {r : Option IrohError}
  {capacity : Capacity} {x : Course}

/-! ## The ends that are seen -/

theorem length_endsOf (r : Option IrohError) (k : ℕ) : (endsOf r k).length = k := by
  cases k with
  | zero => rfl
  | succ k => simp [endsOf]

theorem endings_snd (r : Option IrohError) (ws : List ℕ) :
    (WaiterQueue.endings r ws).map Prod.snd = endsOf r ws.length := by
  cases ws with
  | nil => rfl
  | cons p ps =>
      cases r with
      | none => simp [WaiterQueue.endings, endsOf, Function.comp_def]
      | some e => simp [WaiterQueue.endings, endsOf, Function.comp_def]

/-- The ends that the consumers of an ended queue have seen are determined by their number. -/
theorem ends_eq_endsOf {q : WaiterQueue Chunk IrohError} (hv : q.Valid)
    (ht : q.terminal = some r) : q.ends = endsOf r q.ends.length := by
  have hends := hv.ends
  rw [ht] at hends
  cases r with
  | none =>
      obtain ⟨-, k, hk⟩ := hends
      rw [hk]
      cases k with
      | zero => rfl
      | succ k => simp [endsOf, List.replicate_succ]
  | some e =>
      rcases hends with ⟨-, hk⟩ | ⟨-, k, hk⟩
      · rw [hk]
        rfl
      · rw [hk]
        simp [endsOf]

/-- The results of a consumer end with the ends it has seen, if they come after values. -/
theorem ends_eq {cs : List Chunk} {k : ℕ} (h : s.results = cs.map .value ++ endsOf r k) :
    s.chunks.consumers.ends = endsOf r k := by
  have hvalues : (cs.map (Settled.value : Chunk → Settled Chunk IrohError)).filter Settled.isEnd
      = [] := by simp [List.filter_eq_nil_iff]
  have hends : (endsOf r k).filter Settled.isEnd = endsOf r k := by
    rw [List.filter_eq_self]
    intro a ha
    cases k with
    | zero => cases ha
    | succ k =>
        rcases List.mem_cons.mp ha with rfl | ha
        · cases r with
          | none => rfl
          | some e => rfl
        · rw [List.eq_of_mem_replicate ha]
          rfl
  rw [results] at h
  rw [WaiterQueue.ends, h, List.filter_append, hvalues, hends, List.nil_append]

/-! ## The stream follows its course -/

/-- The stream has ended, and the consumer has asked `late` times since. -/
structure Ended (s : StreamController) (c : Channel Chunk) (r : Option IrohError) (late : ℕ) :
    Prop where
  valid : s.Valid
  outcome : s.settlement.outcome = some r
  terminal : s.chunks.terminal = some r
  buffer : s.chunks.buffer = []
  results : s.results = c.received.map .value ++ endsOf r (c.blocked + late)

def Follows (capacity : Capacity) (s : StreamController) (x : Course) : Prop :=
  s.chunks.capacity = capacity ∧
    match x.outcome with
    | none => x.late = 0 ∧ s.isClosed = false ∧ s.Carries x.channel
    | some r => s.Ended x.channel r x.late

/-- An open stream is ended. -/
theorem ended_finish (hopen : s.isClosed = false) (hq : s.chunks.isClosed = false)
    (hv : s.chunks.consumers.Valid) (hr : s.results = c.received.map .value)
    (hb : s.chunks.consumers.waiters.length = c.blocked) (o : Owner ω) (w : ω)
    (hvalid : (finish o r (s, w)).1.Valid) : (finish o r (s, w)).1.Ended c r 0 := by
  obtain ⟨ht, hd, -⟩ := hv.live_undelivered hq
  have hfinish : (finish o r (s, w)).1 =
      { settlement := .settledWith r
        chunks := { s.chunks with buffer := [], consumers := s.chunks.consumers.settle r } } := by
    rw [finish_open o r hopen, MessageQueue.close_open {} hq]
  rw [hfinish] at hvalid ⊢
  refine ⟨hvalid, rfl, ?_, rfl, ?_⟩
  · simp only [MessageQueue.terminal, WaiterQueue.settle_live ht hd]
  · simp only [results, WaiterQueue.settle_live ht hd, List.map_append, endings_snd, hb,
      Nat.add_zero] at hr ⊢
    rw [hr]

theorem Carries.finish (h : s.Carries c) (hopen : s.isClosed = false) (o : Owner ω)
    (r : Option IrohError) (w : ω) : (StreamController.finish o r (s, w)).1.Ended c r 0 :=
  ended_finish hopen h.isOpen h.valid.chunks.consumers h.received h.parked o w
    (h.valid.finish o r w)

/-- One more `next()` sees the end. -/
theorem Ended.next {late : ℕ} (h : s.Ended c r late) :
    StreamController.Ended { s with chunks := s.chunks.next } c r (late + 1) := by
  have hterminal := (MessageQueue.next_terminal s.chunks).trans h.terminal
  have hvalid : StreamController.Valid { s with chunks := s.chunks.next } :=
    h.valid.setChunks h.valid.chunks.next (Or.inl (MessageQueue.next_terminal _))
  have hends := ends_eq h.results
  have hclosed : s.chunks.isClosed = true := congrArg Option.isSome h.terminal
  rcases MessageQueue.next_cases s.chunks with
    ⟨v, rest, hb, -⟩ | ⟨hb, -, t, consumers, ht, hend, he⟩ | ⟨-, hc, -⟩
  · rw [h.buffer] at hb
    cases hb
  · obtain ⟨d, rfl⟩ := WaiterQueue.settledResult_eq ht
    rw [he] at hterminal hvalid ⊢
    -- the end it sees makes one more, and their number says which they are
    have hnew : endsOf r (c.blocked + late) ++ [t] = endsOf r (c.blocked + late + 1) := by
      have heq := ends_eq_endsOf hvalid.chunks.consumers hterminal
      have hanswer : (({ s.chunks.consumers with errorDelivered := d }).answer t).ends =
          endsOf r (c.blocked + late) ++ [t] := by
        rw [WaiterQueue.ends_answer hend, ← hends]
        rfl
      rw [hanswer] at heq
      simpa [length_endsOf] using heq
    refine ⟨hvalid, h.outcome, hterminal, hb, ?_⟩
    have hres := h.results
    simp only [StreamController.results, WaiterQueue.answer, List.map_append] at hres ⊢
    rw [hres, ← Nat.add_assoc, ← hnew, List.append_assoc]
    rfl
  · rw [hclosed] at hc
    cases hc

/-- Nothing else happens to an ended stream. -/
theorem Ended.handle {late : ℕ} (h : s.Ended c r late) (o : Owner ω) {e : StreamEvent}
    (he : e ≠ .return) (w : ω) :
    (StreamController.handle o e (s, w)).1.Ended c r (late + if e = .next then 1 else 0) := by
  have hclosed : s.isClosed = true := by
    rw [isClosed, Settlement.isSettled_eq, h.outcome]
    rfl
  cases e with
  | onData chunk =>
      have hsame : onData o chunk (s, w) = (s, w) := by
        rcases onData_cases o chunk s w with ⟨-, he⟩ | ⟨hc, -⟩ | ⟨hc, -⟩ | ⟨hc, -⟩
        · exact he
        all_goals
          rw [h.valid.ended hclosed] at hc
          cases hc
      rw [StreamController.handle, hsame]
      exact h
  | onClose event =>
      rw [StreamController.handle, finish_closed o _ hclosed]
      exact h
  | close =>
      rw [StreamController.handle, finish_closed o _ hclosed]
      exact h
  | next => exact h.next
  | «return» => exact absurd rfl he

/-- A chunk is written to the channel, or it is the one that is too many. -/
theorem Carries.deliver (h : s.Carries c) (hopen : s.isClosed = false) (o : Owner ω)
    (chunk : Chunk) (w : ω) :
    (s.chunks.capacity.exceeded (c.write chunk).pending.length = false ∧
        (StreamController.onData o chunk (s, w)).1.isClosed = false ∧
        (StreamController.onData o chunk (s, w)).1.Carries (c.write chunk)) ∨
      (s.chunks.capacity.exceeded (c.write chunk).pending.length = true ∧
        (StreamController.onData o chunk (s, w)).1.Ended c (some (overflowError 1)) 0) := by
  have hwrite := h.onData o chunk w
  have hvalid := h.valid.onData o chunk w
  have hlen := h.parked
  rcases onData_cases o chunk s w with
    ⟨hc, -⟩ | ⟨hc, p, ps, hw, he⟩ | ⟨hc, hw, hx, he⟩ | ⟨hc, hw, hx, oldest, rest, hb, he⟩
  · rw [h.isOpen] at hc
    cases hc
  · have hblocked : c.blocked ≠ 0 := by
      rw [← hlen, hw]
      exact Nat.succ_ne_zero _
    refine Or.inl ⟨?_, ?_, hwrite.resolve_right ?_⟩
    · rw [(Channel.write_blocked hblocked chunk).2.1]
      exact Capacity.not_exceeded_zero _
    · rw [he]
      exact hopen
    · rw [he]
      exact fun hne => hne h.kept
  · have hblocked : c.blocked = 0 := by rw [← hlen, hw]; rfl
    refine Or.inl ⟨?_, ?_, hwrite.resolve_right ?_⟩
    · rw [(Channel.write_free hblocked chunk).2.1, ← h.buffer, List.length_append]
      exact hx
    · rw [he]
      exact hopen
    · rw [he]
      exact fun hne => hne h.kept
  · have hblocked : c.blocked = 0 := by rw [← hlen, hw]; rfl
    refine Or.inr ⟨?_, ?_⟩
    · rw [(Channel.write_free hblocked chunk).2.1, ← h.buffer, List.length_append]
      exact hx
    · have hdropped : s.chunks.droppedCount = 0 := h.kept
      rw [he, hdropped] at hvalid ⊢
      refine ended_finish ?_ ?_ ?_ ?_ ?_ o w hvalid
      · exact hopen
      · exact hc
      · exact h.valid.chunks.consumers
      · exact h.received
      · exact hlen

theorem finish_capacity (o : Owner ω) (error : Option IrohError) (p : StreamController × ω) :
    (finish o error p).1.chunks.capacity = p.1.chunks.capacity := by
  obtain ⟨s, w⟩ := p
  cases h : s.isClosed with
  | true => rw [finish_closed o error h]
  | false =>
      rw [finish_open o error h]
      exact MessageQueue.close_capacity {} _ _ _

theorem handle_capacity (o : Owner ω) (e : StreamEvent) (s : StreamController) (w : ω) :
    (handle o e (s, w)).1.chunks.capacity = s.chunks.capacity := by
  cases e with
  | onData chunk =>
      rcases onData_cases o chunk s w with
        ⟨-, he⟩ | ⟨-, p, ps, -, he⟩ | ⟨-, -, -, he⟩ | ⟨-, -, -, oldest, rest, -, he⟩
      · rw [handle, he]
      · rw [handle, he]
      · rw [handle, he]
      · rw [handle, he, finish_capacity]
  | onClose event => exact finish_capacity o _ (s, w)
  | close => exact finish_capacity o none (s, w)
  | next => exact MessageQueue.next_capacity s.chunks
  | «return» => exact MessageQueue.close_capacity {} s.chunks none w

/-- A stream follows its course, event by event. -/
theorem Follows.handle (h : s.Follows capacity x) (o : Owner ω) {e : StreamEvent}
    (he : e ≠ .return) (w : ω) :
    (StreamController.handle o e (s, w)).1.Follows capacity (x.step capacity e) := by
  obtain ⟨hcapacity, hx⟩ := h
  refine ⟨(handle_capacity o e s w).trans hcapacity, ?_⟩
  cases ho : x.outcome with
  | some r =>
      rw [ho] at hx
      rw [Course.step_ended ho e]
      simp only [ho]
      exact hx.handle o he w
  | none =>
      rw [ho] at hx
      obtain ⟨hlate, hopen, hcarries⟩ := hx
      cases e with
      | onData chunk =>
          rcases hcarries.deliver hopen o chunk w with ⟨hn, hlive⟩ | ⟨hn, hended⟩
          · have hstep : x.step capacity (.onData chunk) =
                { x with channel := x.channel.write chunk } := by
              simp [Course.step, ho, trigger, ← hcapacity, hn, StreamEvent.channel]
            rw [hstep]
            simp only [ho]
            exact ⟨hlate, hlive⟩
          · have hstep : x.step capacity (.onData chunk) =
                { x with outcome := some (some (overflowError 1)) } := by
              simp [Course.step, ho, trigger, ← hcapacity, hn]
            rw [hstep]
            exact hlate.symm ▸ hended
      | onClose event =>
          have hstep : x.step capacity (.onClose event) =
              { x with outcome := some (parseCloseEvent event) } := by
            simp [Course.step, ho, trigger]
          rw [hstep]
          exact hlate.symm ▸ hcarries.finish hopen o _ w
      | close =>
          have hstep : x.step capacity .close = { x with outcome := some none } := by
            simp [Course.step, ho, trigger]
          rw [hstep]
          exact hlate.symm ▸ hcarries.finish hopen o none w
      | next =>
          have hstep : x.step capacity .next = { x with channel := x.channel.ask } := by
            simp [Course.step, ho, trigger, StreamEvent.channel]
          rw [hstep]
          simp only [ho]
          exact ⟨hlate, hopen, hcarries.next⟩
      | «return» => exact absurd rfl he

theorem Follows.handleAll (h : s.Follows capacity x) (o : Owner ω) {es : List StreamEvent}
    (hes : .return ∉ es) (w : ω) :
    (StreamController.handleAll o es (s, w)).1.Follows capacity
      (es.foldl (Course.step capacity) x) := by
  induction es generalizing s x w with
  | nil => exact h
  | cons e es ih =>
      obtain ⟨he, hrest⟩ := not_or.mp (fun hmem => hes (List.mem_cons.mpr hmem))
      exact ih (h.handle o (Ne.symm he) w) hrest _

/-- The stream is open and carries its channel, or it has ended as its course has. -/
theorem Follows.open_or_ended (h : s.Follows capacity x) :
    (x.outcome = none ∧ s.isClosed = false ∧ s.Carries x.channel) ∨
      ∃ r, x.outcome = some r ∧ s.Ended x.channel r x.late := by
  obtain ⟨-, hx⟩ := h
  cases ho : x.outcome with
  | some r =>
      rw [ho] at hx
      exact Or.inr ⟨r, rfl, hx⟩
  | none =>
      rw [ho] at hx
      exact Or.inl ⟨rfl, hx.2⟩

/-- A stream that follows its course is settled with what its course ends with. -/
theorem Follows.settled (h : s.Follows capacity x) : s.settlement.outcome = x.outcome := by
  rcases h.open_or_ended with ⟨ho, hopen, -⟩ | ⟨r, ho, hended⟩
  · rw [ho]
    simpa [isClosed, Settlement.isSettled_eq] using hopen
  · rw [ho, hended.outcome]

theorem Follows.received (h : s.Follows capacity x) : s.results = x.results := by
  rcases h.open_or_ended with ⟨ho, -, hcarries⟩ | ⟨r, ho, hended⟩
  · rw [hcarries.received, Course.results, ho, List.append_nil]
  · rw [hended.results, Course.results, ho]

theorem Follows.valid (h : s.Follows capacity x) : s.Valid := by
  rcases h.open_or_ended with ⟨-, -, hcarries⟩ | ⟨r, -, hended⟩
  · exact hcarries.valid
  · exact hended.valid

/-- The chunks delivered are those the channel has received. -/
theorem Follows.delivered (h : s.Follows capacity x) :
    s.chunks.delivered = x.channel.received := by
  have hdelivered : s.chunks.delivered = s.results.filterMap Settled.value? := by
    simp [MessageQueue.delivered, WaiterQueue.delivered, results, List.filterMap_map]
  have hvalues : (x.channel.received.map Settled.value).filterMap
      (Settled.value? : Settled Chunk IrohError → _) = x.channel.received := by
    simp [List.filterMap_map, Function.comp_def]
  have hends : ∀ (r : Option IrohError) (k : ℕ), (endsOf r k).filterMap Settled.value? = [] := by
    intro r k
    cases k with
    | zero => rfl
    | succ k =>
        cases r with
        | none => simp [endsOf]
        | some e => simp [endsOf]
  rw [hdelivered, h.received, Course.results, List.filterMap_append, hvalues]
  cases x.outcome with
  | none => exact List.append_nil _
  | some r => simp only [hends, List.append_nil]

/-! ## The whole run -/

/-- A new stream after some events. -/
def streamed (o : Owner ω) (capacity : Option Number) (es : List StreamEvent) (w : ω) :
    StreamController × ω :=
  handleAll o es (new capacity, w)

theorem streamed_follows (o : Owner ω) (capacity : Option Number) {es : List StreamEvent}
    (hes : .return ∉ es) (w : ω) :
    (streamed o capacity es w).1.Follows (.ofOption capacity)
      (Course.run (.ofOption capacity) es) := by
  have hnew : (new capacity).Follows (.ofOption capacity) {} :=
    ⟨rfl, rfl, rfl, carries_new capacity⟩
  exact hnew.handleAll o hes w

/-- What holds of a stream after every run. -/
structure NoHole (o : Owner ω) (capacity : Option Number) (es : List StreamEvent) (w : ω) :
    Prop where
  /-- The consumer has received what came first, in order. -/
  received : (streamed o capacity es w).1.chunks.delivered <+: chunksIn es
  /-- Its calls are answered in the order they were made in. -/
  ordered : (streamed o capacity es w).1.chunks.consumers.outcomes.map Prod.fst <+:
    List.range (streamed o capacity es w).1.chunks.consumers.issued
  /-- A chunk that is one more than may wait fails the stream.  Nothing is delivered any more,
  and the next call, and no other, observes the error. -/
  overflow : (streamed o capacity es w).1.isClosed = false → ∀ chunk es', .return ∉ es' →
    (Capacity.ofOption capacity).exceeded ((chunksIn es).length + 1 - es.count .next) = true →
      ∃ e : IrohError, e.code.kind = "stream-overflow" ∧
        (streamed o capacity (es ++ .onData chunk :: es') w).1.settlement.outcome =
          some (some e) ∧
        (streamed o capacity (es ++ .onData chunk :: es') w).1.results =
          (streamed o capacity es w).1.chunks.delivered.map .value ++
            endsOf (some e) (es'.count .next)
  /-- `closed` is settled by the first event that ends the stream. -/
  outcome : (streamed o capacity es w).1.settlement.outcome =
    firstTrigger (.ofOption capacity) {} es
  /-- It is settled once. -/
  once : ∀ es', .return ∉ es' → ∀ r, (streamed o capacity es w).1.settlement.outcome = some r →
    (streamed o capacity (es ++ es') w).1.settlement.outcome = some r
  /-- The native handle is released once, with the end. -/
  released : (streamed o capacity es w).2 =
    if (streamed o capacity es w).1.isClosed then o.onDispose (o.release w) else w

/-- A course ends when one chunk more than the capacity waits. -/
theorem run_overflow {capacity : Capacity} {es : List StreamEvent}
    (hlive : (Course.run capacity es).outcome = none) (chunk : Chunk) (es' : List StreamEvent)
    (hfull : capacity.exceeded ((chunksIn es).length + 1 - es.count .next) = true) :
    Course.run capacity (es ++ .onData chunk :: es') =
      { Course.run capacity es with
        outcome := some (some (overflowError 1))
        late := (Course.run capacity es).late + es'.count .next } := by
  have hchannel := (Course.run_channel capacity es).2 hlive
  have hpending : ((Course.run capacity es).channel.write chunk).pending.length =
      (chunksIn es).length + 1 - es.count .next := by
    rw [hchannel]
    simp [Channel.write, Channel.pending]
  have hstep : (Course.run capacity es).step capacity (.onData chunk) =
      { Course.run capacity es with outcome := some (some (overflowError 1)) } := by
    simp [Course.step, hlive, trigger, hpending, hfull]
  have hrun : Course.run capacity (es ++ .onData chunk :: es') =
      es'.foldl (Course.step capacity)
        ((Course.run capacity es).step capacity (.onData chunk)) := by
    rw [Course.run, List.foldl_append]
    rfl
  rw [hrun, hstep, Course.foldl_ended (by rfl)]

/-- What was settled stays so in a longer run. -/
theorem run_settled {capacity : Capacity} {es : List StreamEvent} {r : Option IrohError}
    (h : (Course.run capacity es).outcome = some r) (es' : List StreamEvent) :
    (Course.run capacity (es ++ es')).outcome = some r := by
  rw [Course.run, List.foldl_append]
  exact (congrArg Course.outcome (Course.foldl_ended h es')).trans h

/-- Where more may not wait, nobody is parked. -/
theorem run_unblocked {capacity : Capacity} {es : List StreamEvent}
    (hlive : (Course.run capacity es).outcome = none)
    (hfull : capacity.exceeded ((chunksIn es).length + 1 - es.count .next) = true) :
    (Course.run capacity es).channel.blocked = 0 := by
  have hle : es.count .next ≤ (chunksIn es).length := by
    by_contra hlt
    have hzero : (chunksIn es).length + 1 - es.count .next = 0 := by omega
    rw [hzero, Capacity.not_exceeded_zero] at hfull
    cases hfull
  rw [(Course.run_channel capacity es).2 hlive]
  exact Nat.sub_eq_zero_of_le hle

theorem no_hole (o : Owner ω) (capacity : Option Number) (es : List StreamEvent)
    (hes : .return ∉ es) (w : ω) : NoHole o capacity es w := by
  have hfollows := streamed_follows o capacity hes w
  refine ⟨?_, ?_, fun hopen chunk es' hes' hfull => ?_, ?_, fun es' hes' r hr => ?_, ?_⟩
  · rw [hfollows.delivered]
    exact (List.take_prefix _ _).trans (Course.run_channel (.ofOption capacity) es).1
  · exact ⟨_, hfollows.valid.chunks.consumers.order⟩
  · have hlive : (Course.run (.ofOption capacity) es).outcome = none := by
      rw [← hfollows.settled]
      simpa [isClosed, Settlement.isSettled_eq] using hopen
    have hlate : (Course.run (.ofOption capacity) es).late = 0 := by
      have hcourse := hfollows.2
      rw [hlive] at hcourse
      exact hcourse.1
    have hafter : (streamed o capacity (es ++ .onData chunk :: es') w).1.Follows _ _ :=
      streamed_follows o capacity (by simp [hes, hes']) w
    rw [run_overflow hlive chunk es' hfull] at hafter
    refine ⟨overflowError 1, rfl, hafter.settled, ?_⟩
    rw [hafter.received, hfollows.delivered, Course.results, run_unblocked hlive hfull, hlate,
      Nat.zero_add, Nat.zero_add]
  · rw [hfollows.settled]
    exact Course.foldl_outcome rfl es
  · have hafter : (streamed o capacity (es ++ es') w).1.Follows _ _ :=
      streamed_follows o capacity (by simp [hes, hes']) w
    rw [hafter.settled]
    exact run_settled (hfollows.settled.symm.trans hr) es'
  · exact Once.foldl (handle_once o) es rfl w

/-- A queue of one chunk, and a consumer that is one chunk behind. -/
def behind : List StreamEvent :=
  [.onData [1], .next, .onData [2], .onData [3], .onData [4], .next, .next]

theorem no_hole_behind :
    (streamed (ω := ℕ) ⟨(· + 1), id⟩ (some (.ofNat 1)) behind 0).1.results =
        [.value [1], .error (overflowError 1), .done] ∧
      NoHole (ω := ℕ) ⟨(· + 1), id⟩ (some (.ofNat 1)) behind 0 :=
  ⟨by decide +kernel, no_hole _ _ _ (by decide) _⟩

end StreamController

end Iroh
