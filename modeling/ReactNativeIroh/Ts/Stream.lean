import ReactNativeIroh.Lib.Ownership
import ReactNativeIroh.Ts.IrohError
import ReactNativeIroh.Ts.MessageQueue

/-!
# Streams

`StreamController` bridges the native `onData` and `onClose` callbacks of one
stream to a bounded queue of chunks.  It is torn down once, by whichever comes
first of the native close, the host's `close()` and an overflow of the queue.

Every function acts on the controller and on the state of its owner.  The owner
is an `Owner`: its `release` is `binding.closeStream(streamId)`, a call that may
throw and whose exception is swallowed, and its `onDispose` is the option of that
name.  `handle_once` says that a callback or a call either leaves the owner alone
or settles the stream and does both, in that order.
-/

namespace Iroh

open Ownership

/-- The bytes of one `Uint8Array`. -/
abbrev Chunk := List UInt8

theorem unsettled_agrees : (none : Option (Option IrohError)).isSome = false := rfl

/-- A once-only settlement: its flag, and what its promise was settled with.  They agree. -/
structure Settlement where
  settled : Bool := false
  outcome : Option (Option IrohError) := none
  agree : outcome.isSome = settled := by exact unsettled_agrees
deriving DecidableEq

namespace Settlement

def isSettled (s : Settlement) : Bool := s.settled

theorem isSettled_eq (s : Settlement) : s.isSettled = s.outcome.isSome :=
  s.agree.symm

/-- A settlement that was settled with this. -/
def settledWith (error : Option IrohError) : Settlement :=
  { settled := true, outcome := some error, agree := rfl }

/-- Settle once.  `none` when this call was not the one that settled it. -/
def settle (s : Settlement) (error : Option IrohError) : Option Settlement :=
  if s.isSettled then none else some (settledWith error)

theorem settle_settled {s : Settlement} (h : s.isSettled = true) (error : Option IrohError) :
    s.settle error = none := by
  simp [settle, h]

theorem settle_unsettled {s : Settlement} (h : s.isSettled = false) (error : Option IrohError) :
    s.settle error = some (settledWith error) := by
  simp [settle, h]

end Settlement

/-- The error of a stream whose consumer fell behind. -/
def overflowError (dropped : ℕ) : IrohError :=
  ⟨.streamOverflow, s!"stream consumer fell behind; {dropped} chunks dropped"⟩

structure StreamController where
  settlement : Settlement := {}
  chunks : MessageQueue Chunk IrohError
deriving DecidableEq

/-- What can happen to a stream: the native callbacks, the host's `close()`, and
the consumer's `next()` and `return()` on `data`. -/
inductive StreamEvent where
  | onData (chunk : Chunk)
  | onClose (event : String)
  | close
  | next
  | return
deriving DecidableEq

namespace StreamController

variable {ω : Type*}

/-- The constructor, once `subscribeStream` has returned. -/
def new (capacity : Option Number) : StreamController := { chunks := .new capacity }

def isClosed (s : StreamController) : Bool := s.settlement.isSettled

/-- End the stream exactly once, releasing the native handle with it. -/
def finish (o : Owner ω) (error : Option IrohError) :
    StreamController × ω → StreamController × ω
  | (s, w) =>
      match s.settlement.settle error with
      | none => (s, w)
      | some settlement =>
          ({ settlement := settlement, chunks := (MessageQueue.close {} error (s.chunks, w)).1 },
            o.onDispose (o.release w))

/-- The hooks of the queue of chunks: an overflow is fatal. -/
def hooks (o : Owner ω) : QueueHooks Chunk IrohError (Settlement × ω) where
  onLagged := fun dropped (chunks, settlement, w) =>
    let (s, w) := finish o (some (overflowError dropped)) ({ settlement, chunks }, w)
    (s.chunks, s.settlement, w)

/-- The native read delivers a chunk. -/
def onData (o : Owner ω) (chunk : Chunk) : StreamController × ω → StreamController × ω
  | (s, w) =>
      let (chunks, settlement, w) := MessageQueue.push (hooks o) chunk (s.chunks, s.settlement, w)
      ({ settlement, chunks }, w)

def handle (o : Owner ω) : StreamEvent → StreamController × ω → StreamController × ω
  | .onData chunk, p => onData o chunk p
  | .onClose event, p => finish o (parseCloseEvent event) p
  | .close, p => finish o none p
  | .next, (s, w) => ({ s with chunks := s.chunks.next }, w)
  | .return, (s, w) => ({ s with chunks := (MessageQueue.return {} (s.chunks, w)).1 }, w)

/-- Handle one event after the other. -/
def handleAll (o : Owner ω) (es : List StreamEvent) (p : StreamController × ω) :
    StreamController × ω :=
  es.foldl (fun p e => handle o e p) p

/-! ## What each function does -/

theorem finish_closed (o : Owner ω) (error : Option IrohError) {s : StreamController}
    (h : s.isClosed = true) (w : ω) : finish o error (s, w) = (s, w) := by
  simp [finish, Settlement.settle_settled h]

theorem finish_open (o : Owner ω) (error : Option IrohError) {s : StreamController}
    (h : s.isClosed = false) (w : ω) :
    finish o error (s, w) =
      ({ settlement := .settledWith error
         chunks := (MessageQueue.close {} error (s.chunks, w)).1 },
        o.onDispose (o.release w)) := by
  simp [finish, Settlement.settle_unsettled h]

/-- What `finish` makes of the controller, whoever owns it. -/
def finished (s : StreamController) (error : Option IrohError) : StreamController :=
  (finish (⟨id, id⟩ : Owner Unit) error (s, ())).1

theorem finished_closed {s : StreamController} (h : s.isClosed = true) (error : Option IrohError) :
    s.finished error = s := by
  rw [finished, finish_closed _ error h]

theorem finished_open {s : StreamController} (h : s.isClosed = false) (error : Option IrohError) :
    s.finished error =
      { settlement := .settledWith error
        chunks := (MessageQueue.close {} error (s.chunks, ())).1 } := by
  rw [finished, finish_open _ error h]

theorem finish_fst (o : Owner ω) (error : Option IrohError) (s : StreamController) (w : ω) :
    (finish o error (s, w)).1 = s.finished error := by
  cases h : s.isClosed with
  | true => rw [finish_closed o error h, finished_closed h]
  | false =>
      rw [finish_open o error h, finished_open h]
      cases hq : s.chunks.isClosed with
      | true => simp only [MessageQueue.close_closed {} hq]
      | false => simp only [MessageQueue.close_open {} hq]

@[simp] theorem finish_isClosed (o : Owner ω) (error : Option IrohError)
    (p : StreamController × ω) : (finish o error p).1.isClosed = true := by
  obtain ⟨s, w⟩ := p
  cases h : s.isClosed with
  | true => rw [finish_closed o error h, h]
  | false => rw [finish_open o error h]; rfl

@[simp] theorem finished_isClosed (s : StreamController) (error : Option IrohError) :
    (s.finished error).isClosed = true :=
  finish_isClosed _ error _

/-- Only the first end counts. -/
@[simp] theorem finished_finished (s : StreamController) (error error' : Option IrohError) :
    (s.finished error).finished error' = s.finished error :=
  finished_closed (finished_isClosed s error) error'

/-- The stream's queue ends with it. -/
theorem finish_ends (o : Owner ω) (error : Option IrohError) {s : StreamController}
    (h : s.isClosed = false) (w : ω) : (finish o error (s, w)).1.chunks.isClosed = true := by
  rw [finish_open o error h]
  exact MessageQueue.close_isClosed {} _ _ _

@[simp] theorem finish_dropped (o : Owner ω) (error : Option IrohError)
    (p : StreamController × ω) : (finish o error p).1.chunks.dropped = p.1.chunks.dropped := by
  obtain ⟨s, w⟩ := p
  cases h : s.isClosed with
  | true => rw [finish_closed o error h]
  | false => rw [finish_open o error h]; exact MessageQueue.close_dropped {} _ _ _

/-- Everything a chunk can do: nothing, go to a parked consumer, go into the
buffer, or overflow it and fail the stream. -/
theorem onData_cases (o : Owner ω) (chunk : Chunk) (s : StreamController) (w : ω) :
    (s.chunks.isClosed = true ∧ onData o chunk (s, w) = (s, w)) ∨
    (s.chunks.isClosed = false ∧ ∃ p ps, s.chunks.consumers.waiters = p :: ps ∧
      onData o chunk (s, w) =
        ({ s with
          chunks := { s.chunks with
            consumers :=
              { s.chunks.consumers with waiters := ps }.fulfil p (.value chunk) } }, w)) ∨
    (s.chunks.isClosed = false ∧ s.chunks.consumers.waiters = [] ∧
      s.chunks.capacity.exceeded (s.chunks.buffer.length + 1) = false ∧
      onData o chunk (s, w) =
        ({ s with chunks := { s.chunks with buffer := s.chunks.buffer ++ [chunk] } }, w)) ∨
    (s.chunks.isClosed = false ∧ s.chunks.consumers.waiters = [] ∧
      s.chunks.capacity.exceeded (s.chunks.buffer.length + 1) = true ∧
      ∃ oldest rest, s.chunks.buffer = oldest :: rest ∧
        onData o chunk (s, w) =
          finish o (some (overflowError (s.chunks.droppedCount + 1)))
            ({ s with
              chunks := { s.chunks with
                buffer := rest ++ [chunk], droppedCount := s.chunks.droppedCount + 1 } }, w)) := by
  rcases MessageQueue.push_cases (hooks o) s.chunks chunk (s.settlement, w) with
    ⟨hc, he⟩ | ⟨hc, p, ps, hw, he⟩ | ⟨hc, hw, hx, he⟩ | ⟨hc, hw, hx, oldest, rest, hb, he⟩
  · exact Or.inl ⟨hc, by simp only [onData, he]⟩
  · exact Or.inr (Or.inl ⟨hc, p, ps, hw, by simp only [onData, he]⟩)
  · exact Or.inr (Or.inr (Or.inl ⟨hc, hw, hx, by simp only [onData, he]⟩))
  · refine Or.inr (Or.inr (Or.inr ⟨hc, hw, hx, oldest, rest, hb, ?_⟩))
    simp only [onData]
    rw [he]
    rfl

/-! ## The invariants -/

/-- The invariant of the class: the queue keeps its own, it ends with the stream,
and while the stream is open it has not ended with an error. -/
structure Valid (s : StreamController) : Prop where
  chunks : s.chunks.Valid
  ended : s.isClosed = true → s.chunks.isClosed = true
  unfailed : s.isClosed = false → ∀ e, s.chunks.terminal ≠ some (some e)

theorem valid_new (capacity : Option Number) : (new capacity).Valid where
  chunks := MessageQueue.valid_new capacity
  ended := nofun
  unfailed _ _ := nofun

namespace Valid

variable {s : StreamController}

theorem finish (h : s.Valid) (o : Owner ω) (error : Option IrohError) (w : ω) :
    (StreamController.finish o error (s, w)).1.Valid := by
  cases hc : s.isClosed with
  | true => rw [finish_closed o error hc]; exact h
  | false =>
      rw [finish_open o error hc]
      exact ⟨h.chunks.close {} error w, fun _ => MessageQueue.close_isClosed {} _ _ _, nofun⟩

/-- While the queue is open, so is the stream. -/
theorem open_of_chunks (h : s.Valid) (hc : s.chunks.isClosed = false) : s.isClosed = false := by
  cases ho : s.isClosed with
  | false => rfl
  | true => rw [h.ended ho] at hc; cases hc

/-- The lag hook keeps the invariant of the queue it is called from. -/
theorem lagKeeps (o : Owner ω) : MessageQueue.LagKeeps (hooks o) := by
  intro n p hp
  obtain ⟨q, settlement, w⟩ := p
  cases hc : settlement.isSettled with
  | true => simpa [hooks, finish_closed o _ (s := ⟨settlement, q⟩) hc] using hp
  | false =>
      simp only [hooks, finish_open o _ (s := ⟨settlement, q⟩) hc]
      exact hp.close {} _ w

/-- The queue of a stream may change, and end in order. -/
theorem setChunks (h : s.Valid) {q : MessageQueue Chunk IrohError} (hq : q.Valid)
    (ht : q.terminal = s.chunks.terminal ∨ q.terminal = some none) :
    StreamController.Valid { s with chunks := q } where
  chunks := hq
  ended hs := by
    rcases ht with ht | ht
    · exact (congrArg Option.isSome ht).trans (h.ended hs)
    · exact congrArg Option.isSome ht
  unfailed hs e := by
    rcases ht with ht | ht
    · exact ht ▸ h.unfailed hs e
    · exact ht ▸ nofun

theorem onData (h : s.Valid) (o : Owner ω) (chunk : Chunk) (w : ω) :
    (StreamController.onData o chunk (s, w)).1.Valid := by
  have hq : (StreamController.onData o chunk (s, w)).1.chunks.Valid :=
    h.chunks.push (lagKeeps o) chunk (s.settlement, w)
  rcases onData_cases o chunk s w with
    ⟨hc, he⟩ | ⟨hc, p, ps, hw, he⟩ | ⟨hc, hw, hx, he⟩ | ⟨hc, hw, hx, oldest, rest, hb, he⟩
  · rw [he]; exact h
  · rw [he] at hq ⊢
    exact h.setChunks hq (Or.inl rfl)
  · rw [he] at hq ⊢
    exact h.setChunks hq (Or.inl rfl)
  · rw [he] at hq ⊢
    refine ⟨hq, fun _ => finish_ends o _ ?_ w, fun hs => ?_⟩
    · exact h.open_of_chunks hc
    · rw [finish_isClosed] at hs
      cases hs

theorem handle (h : s.Valid) (o : Owner ω) (e : StreamEvent) (w : ω) :
    (StreamController.handle o e (s, w)).1.Valid := by
  cases e with
  | onData chunk => exact h.onData o chunk w
  | onClose event => exact h.finish o _ w
  | close => exact h.finish o none w
  | next => exact h.setChunks h.chunks.next (Or.inl (MessageQueue.next_terminal _))
  | «return» =>
      refine h.setChunks (h.chunks.close {} none w) ?_
      cases hc : s.chunks.isClosed with
      | true => exact Or.inl (by rw [MessageQueue.return, MessageQueue.close_closed {} hc])
      | false => exact Or.inr (MessageQueue.close_terminal {} h.chunks hc none w)

theorem handleAll (h : s.Valid) (o : Owner ω) (es : List StreamEvent) (w : ω) :
    (StreamController.handleAll o es (s, w)).1.Valid := by
  induction es generalizing s w with
  | nil => exact h
  | cons e es ih => exact ih (h.handle o e w) _

end Valid

/-! ## One-shot teardown -/

theorem finish_once (o : Owner ω) (error : Option IrohError) :
    Once isClosed o (finish o error) := by
  intro s w
  cases hc : s.isClosed with
  | true => rw [finish_closed o error hc]; exact Or.inl ⟨hc, rfl⟩
  | false =>
      refine Or.inr ⟨rfl, finish_isClosed o error _, ?_⟩
      rw [finish_open o error hc]

/-- A callback or a call leaves the owner alone, or it settles the stream, releases
the handle and tells the owner. -/
theorem handle_once (o : Owner ω) (e : StreamEvent) : Once isClosed o (handle o e) := by
  intro s w
  cases e with
  | onData chunk =>
      rcases onData_cases o chunk s w with
        ⟨-, he⟩ | ⟨-, p, ps, -, he⟩ | ⟨-, -, -, he⟩ | ⟨-, -, -, oldest, rest, -, he⟩
      · exact Or.inl ⟨by rw [handle, he], by rw [handle, he]⟩
      · exact Or.inl ⟨by rw [handle, he]; rfl, by rw [handle, he]⟩
      · exact Or.inl ⟨by rw [handle, he]; rfl, by rw [handle, he]⟩
      · rw [handle, he]
        exact finish_once o _ _ w
  | onClose event => exact finish_once o _ s w
  | close => exact finish_once o none s w
  | next => exact Or.inl ⟨rfl, rfl⟩
  | «return» => exact Or.inl ⟨rfl, rfl⟩

end StreamController

end Iroh
