import ReactNativeIroh.Ts.Backlog
import ReactNativeIroh.Ts.Stream

/-!
# Connections

`ConnectionController` owns the streams of one connection: a roster, whose open
set is `openStreams` and whose released handles are the ids `closeStream` was
called with.  A stream is referred to by its native id, which the binding never
hands out twice.  The streams the peer opened wait in `incomingStreams`.

A native id arrives by the `onStream` callback or by the promise of `openStream`.
Wrapping it subscribes to the stream, which may throw; the event says whether it
did.
-/

namespace Iroh

open Ownership

/-- How a stream splits its bytes into chunks. -/
inductive StreamFraming where
  | framed
  | raw
deriving DecidableEq

/-- What a connection needs beyond its native handle. -/
structure ConnectionInit where
  remoteId : String
  alpn : String
  framing : StreamFraming
  capacity : Option Number
deriving DecidableEq

/-- How many undelivered connections or streams a queue holds. -/
def DEFAULT_STREAM_BACKLOG : Number := .ofNat 64

structure ConnectionController where
  init : ConnectionInit
  settlement : Settlement := {}
  incomingStreams : MessageQueue ℕ IrohError
  streams : Roster ℕ StreamController := {}

/-- What can happen to a connection.  `opened` is the settlement of a native promise
made by `openStream()`, with the rest of that function. -/
inductive ConnectionEvent where
  | onStream (streamId : ℕ) (wraps : Bool)
  | opened (streamId : ℕ) (wraps : Bool)
  | onClose (event : String)
  | close
  | stream (streamId : ℕ) (e : StreamEvent)
  | incomingNext
  | incomingReturn
deriving DecidableEq

/-- The native stream id an event hands over. -/
def ConnectionEvent.arriving : ConnectionEvent → Option ℕ
  | .onStream streamId _ => some streamId
  | .opened streamId _ => some streamId
  | _ => none

namespace ConnectionController

variable {ω : Type*}

/-- The constructor, once `subscribeConnection` has returned. -/
def new (init : ConnectionInit) : ConnectionController :=
  { init := init, incomingStreams := .new (some DEFAULT_STREAM_BACKLOG) }

def isClosed (c : ConnectionController) : Bool := c.settlement.isSettled

/-- The set of the streams that are open. -/
def openStreams (c : ConnectionController) : List ℕ := c.streams.ledger.live

/-- An event of stream `i`, as an operation on the roster. -/
def streamOp (e : StreamEvent) (i : ℕ) : Op ℕ StreamController ω :=
  StreamController.handle (Ledger.owner i) e

/-- The hooks of `incomingStreams`: a discarded stream is closed. -/
def incomingHooks : QueueHooks ℕ IrohError (Roster ℕ StreamController × ω) :=
  Backlog.hooks (streamOp .close)

/-- Wrap a native stream id, tracking it for the teardown.  `none` when
`subscribeStream` throws. -/
def adopt (streamId : ℕ) (wraps : Bool) (c : ConnectionController) :
    Option ConnectionController :=
  if wraps then some { c with streams := c.streams.adopt streamId (.new c.init.capacity) }
  else none

/-- The peer opened a stream. -/
def onPeerStream (streamId : ℕ) (wraps : Bool) :
    ConnectionController × ω → ConnectionController × ω
  | (c, w) =>
      match c.adopt streamId wraps with
      | none => ({ c with streams := c.streams.release streamId }, w)
      | some c =>
          let (incomingStreams, streams, w) :=
            MessageQueue.push incomingHooks streamId (c.incomingStreams, c.streams, w)
          ({ c with incomingStreams, streams }, w)

/-- End the connection exactly once, taking its streams with it. -/
def finish (o : Owner ω) (error : Option IrohError) :
    ConnectionController × ω → ConnectionController × ω
  | (c, w) =>
      match c.settlement.settle error with
      | none => (c, w)
      | some settlement =>
          let (streams, w) := Roster.applyAll (streamOp .close) c.openStreams (c.streams, w)
          let (incomingStreams, streams, w) :=
            MessageQueue.close incomingHooks error (c.incomingStreams, streams, w)
          ({ c with settlement, incomingStreams, streams }, o.onDispose (o.release w))

def handle (o : Owner ω) : ConnectionEvent → ConnectionController × ω → ConnectionController × ω
  | .onStream streamId wraps, p => onPeerStream streamId wraps p
  | .opened streamId wraps, (c, w) => ((c.adopt streamId wraps).getD c, w)
  | .onClose event, p => finish o (parseCloseEvent event) p
  | .close, p => finish o none p
  | .stream streamId e, (c, w) =>
      let (streams, w) := Roster.apply streamId (streamOp e streamId) (c.streams, w)
      ({ c with streams }, w)
  | .incomingNext, (c, w) => ({ c with incomingStreams := c.incomingStreams.next }, w)
  | .incomingReturn, (c, w) =>
      let (incomingStreams, streams, w) :=
        MessageQueue.return incomingHooks (c.incomingStreams, c.streams, w)
      ({ c with incomingStreams, streams }, w)

/-! ## Streams as members of the roster -/

section StreamOp

variable (e : StreamEvent) (i : ℕ)

theorem streamOp_oneShot : OneShot StreamController.isClosed i (streamOp e i : Op ℕ _ ω) :=
  (StreamController.handle_once _ e).oneShot

theorem streamOp_local : Roster.Local (streamOp e i : Op ℕ _ ω) :=
  Roster.local_of_once (StreamController.handle_once (Ledger.owner i) e)

theorem streamOp_close_closes (p : StreamController × Ledger ℕ × ω) :
    (streamOp .close i p).1.isClosed = true :=
  StreamController.finish_isClosed _ none p

theorem streamOp_close_fst (s : StreamController) (l : Ledger ℕ) (w : ω) :
    (streamOp .close i (s, l, w)).1 = s.finished none :=
  StreamController.finish_fst _ none s _

end StreamOp

/-- What a discarding queue keeps: the roster evolves, its streams keep their
invariant, and nothing outside it changes. -/
structure Kept (r : Roster ℕ StreamController) (w : ω) (p : Roster ℕ StreamController × ω) :
    Prop where
  evolves : r.Evolves StreamController.isClosed p.1
  each : ∀ i s, p.1.objects i = some s → s.Valid
  rest : p.2 = w

theorem kept_refl {r : Roster ℕ StreamController} (hr : ∀ i s, r.objects i = some s → s.Valid)
    (w : ω) : Kept r w (r, w) :=
  ⟨.refl _ r, hr, rfl⟩

theorem Kept.apply {r : Roster ℕ StreamController} {w : ω} {p : Roster ℕ StreamController × ω}
    (h : Kept r w p) (e : StreamEvent) (i : ℕ) : Kept r w (Roster.apply i (streamOp e i) p) where
  evolves := h.evolves.trans (.apply (streamOp_oneShot e i) p)
  each _ _ hs := Roster.apply_keeps (r := p.1) (fun _ _ _ hv => hv.handle _ e _) h.each p.2 hs
  rest := (Roster.apply_local (streamOp_local e i) p).trans h.rest

theorem Kept.close {r : Roster ℕ StreamController} {w : ω} {p : Roster ℕ StreamController × ω}
    (h : Kept r w p) (q : MessageQueue ℕ IrohError) (error : Option IrohError) :
    Kept r w (MessageQueue.close incomingHooks error (q, p)).2 :=
  MessageQueue.close_keeps (fun i _ hp => hp.apply .close i) q error h

theorem Kept.push {r : Roster ℕ StreamController} {w : ω} {p : Roster ℕ StreamController × ω}
    (h : Kept r w p) (q : MessageQueue ℕ IrohError) (i : ℕ) :
    Kept r w (MessageQueue.push incomingHooks i (q, p)).2 :=
  MessageQueue.push_keeps (fun i _ hp => hp.apply .close i) (fun _ _ hp => hp) q i h

theorem incomingHooks_local (w : ω) (i : ℕ) (p : Roster ℕ StreamController × ω) (hp : p.2 = w) :
    (incomingHooks.onDropped i p).2 = w :=
  (Roster.apply_local (streamOp_local .close i) p).trans hp

/-! ## The teardown -/

/-- What the teardown makes of the queue and of the streams. -/
def tornDown (error : Option IrohError) (c : ConnectionController) (w : ω) :
    MessageQueue ℕ IrohError × Roster ℕ StreamController × ω :=
  MessageQueue.close incomingHooks error
    (c.incomingStreams, Roster.applyAll (streamOp .close) c.openStreams (c.streams, w))

theorem finish_closed (o : Owner ω) (error : Option IrohError) {c : ConnectionController}
    (h : c.isClosed = true) (w : ω) : finish o error (c, w) = (c, w) := by
  simp [finish, Settlement.settle_settled h]

section TornDown

variable {c : ConnectionController} (error : Option IrohError)

theorem tornDown_kept (h : ∀ i s, c.streams.objects i = some s → s.Valid) (w : ω) :
    Kept c.streams w (c.tornDown error w).2 := by
  have hall : Kept c.streams w (Roster.applyAll (streamOp .close) c.openStreams (c.streams, w)) :=
    ⟨.applyAll (streamOp_oneShot .close) c.openStreams (c.streams, w),
      Roster.applyAll_keeps (fun _ _ _ _ hv => hv.handle _ .close _) _ h,
      Roster.applyAll_local (streamOp_local .close) _ _⟩
  exact hall.close c.incomingStreams error

theorem tornDown_rest (w : ω) : (c.tornDown error w).2.2 = w := by
  refine MessageQueue.close_keeps (incomingHooks_local w) _ error ?_
  exact Roster.applyAll_local (streamOp_local .close) _ _

theorem tornDown_isClosed (w : ω) : (c.tornDown error w).1.isClosed = true :=
  MessageQueue.close_isClosed incomingHooks _ error _

/-- A stream is closed without an error, unless it had ended before. -/
theorem tornDown_object (hr : c.streams.Sound StreamController.isClosed) {i : ℕ}
    {s : StreamController} (hs : c.streams.objects i = some s) (w : ω) :
    (c.tornDown error w).2.1.objects i = some (s.finished none) := by
  refine MessageQueue.close_keeps (ω := Roster ℕ StreamController × ω)
    (I := fun p => p.1.objects i = some (s.finished none)) (fun j p hp => ?_) _ error ?_
  · by_cases hj : i = j
    · subst hj
      have := Roster.apply_self (r := p.1) (f := streamOp .close i) hp p.2
      rwa [streamOp_close_fst, StreamController.finished_finished] at this
    · exact (Roster.apply_of_ne (r := p.1) hj p.2).trans hp
  · refine (Roster.applyAll_objects (streamOp_close_fst) ?_ c.openStreams (j := i) hs).trans ?_
    · exact fun s => s.finished_finished none none
    · cases hc : s.isClosed with
      | true => simp [StreamController.finished_closed hc]
      | false =>
          have hlive : i ∈ c.openStreams := (hr.live_iff i).2 ⟨s, hs, hc⟩
          rw [if_pos hlive]

theorem tornDown_allClosed (hr : c.streams.Sound StreamController.isClosed)
    (he : ∀ i s, c.streams.objects i = some s → s.Valid) (w : ω) :
    (c.tornDown error w).2.1.AllClosed StreamController.isClosed := by
  intro i s hs
  have hsome := (tornDown_kept error he w).evolves.wrapped i
  rw [hs] at hsome
  obtain ⟨s', hs'⟩ := Option.isSome_iff_exists.mp hsome.symm
  rw [tornDown_object error hr hs' w] at hs
  obtain rfl := Option.some.inj hs
  exact StreamController.finished_isClosed s' none

end TornDown

theorem finish_open (o : Owner ω) (error : Option IrohError) {c : ConnectionController}
    (h : c.isClosed = false) (w : ω) :
    finish o error (c, w) =
      ({ c with
        settlement := .settledWith error
        incomingStreams := (c.tornDown error w).1
        streams := (c.tornDown error w).2.1 }, o.onDispose (o.release w)) := by
  have hrest := tornDown_rest (c := c) error w
  have hfinish : finish o error (c, w) =
      ({ c with
        settlement := .settledWith error
        incomingStreams := (c.tornDown error w).1
        streams := (c.tornDown error w).2.1 },
        o.onDispose (o.release (c.tornDown error w).2.2)) := by
    simp only [finish, Settlement.settle_unsettled h]
    rfl
  rw [hfinish, hrest]

@[simp] theorem finish_isClosed (o : Owner ω) (error : Option IrohError)
    (p : ConnectionController × ω) : (finish o error p).1.isClosed = true := by
  obtain ⟨c, w⟩ := p
  cases h : c.isClosed with
  | true => rw [finish_closed o error h, h]
  | false => rw [finish_open o error h]; rfl

/-! ## The invariant -/

/-- The invariant of the class. -/
structure Valid (c : ConnectionController) : Prop where
  incoming : c.incomingStreams.Valid
  backlog : c.incomingStreams.capacity = .ofOption (some DEFAULT_STREAM_BACKLOG)
  streams : c.streams.Sound StreamController.isClosed
  each : ∀ i s, c.streams.objects i = some s → s.Valid
  ended : c.isClosed = true → c.incomingStreams.isClosed = true

theorem valid_new (init : ConnectionInit) : (new init).Valid where
  incoming := MessageQueue.valid_new _
  backlog := rfl
  streams := .empty
  each _ _ hs := by simp [new] at hs
  ended hs := by simp [new, isClosed, Settlement.isSettled] at hs

theorem lagKeeps_incomingHooks : MessageQueue.LagKeeps (incomingHooks (ω := ω)) :=
  fun _ _ h => h

namespace Valid

variable {c : ConnectionController}

theorem adopt (h : c.Valid) {i : ℕ} (hi : c.streams.Fresh i) :
    ConnectionController.Valid { c with streams := c.streams.adopt i (.new c.init.capacity) } where
  incoming := h.incoming
  backlog := h.backlog
  streams := h.streams.adopt hi rfl
  each j s hs := by
    by_cases hj : j = i
    · subst hj
      simp only [Roster.adopt, Function.update_self, Option.some.injEq] at hs
      exact hs ▸ StreamController.valid_new _
    · simp only [Roster.adopt, Function.update_of_ne hj] at hs
      exact h.each j s hs
  ended := h.ended

/-- The queue and the streams change as a queue operation may change them. -/
theorem setIncoming (h : c.Valid) {q : MessageQueue ℕ IrohError} {r : Roster ℕ StreamController}
    {w : ω} {p : Roster ℕ StreamController × ω} (hq : q.Valid)
    (hcap : q.capacity = c.incomingStreams.capacity)
    (hc : c.isClosed = true → q.isClosed = true) (hr : r = p.1) (hk : Kept c.streams w p) :
    ConnectionController.Valid { c with incomingStreams := q, streams := r } where
  incoming := hq
  backlog := hcap.trans h.backlog
  streams := hr ▸ hk.evolves.sound h.streams
  each := hr ▸ hk.each
  ended := hc

theorem push (h : c.Valid) (i : ℕ) (w : ω) :
    ConnectionController.Valid
      { c with
        incomingStreams := (MessageQueue.push incomingHooks i (c.incomingStreams, c.streams, w)).1
        streams := (MessageQueue.push incomingHooks i (c.incomingStreams, c.streams, w)).2.1 } := by
  refine h.setIncoming (h.incoming.push lagKeeps_incomingHooks i _)
    (MessageQueue.push_capacity (fun _ _ => rfl) _ _ _) (fun hc => ?_) rfl
    ((kept_refl h.each w).push c.incomingStreams i)
  rw [MessageQueue.push_closed incomingHooks (h.ended hc)]
  exact h.ended hc

theorem finish (h : c.Valid) (o : Owner ω) (error : Option IrohError) (w : ω) :
    (ConnectionController.finish o error (c, w)).1.Valid := by
  cases hc : c.isClosed with
  | true => rw [finish_closed o error hc]; exact h
  | false =>
      rw [finish_open o error hc]
      exact ⟨h.incoming.close incomingHooks error _,
        (MessageQueue.close_capacity _ _ _ _).trans h.backlog,
        (tornDown_kept error h.each w).evolves.sound h.streams,
        (tornDown_kept error h.each w).each, fun _ => tornDown_isClosed error w⟩

/-- Every event keeps the invariant, if the ids it hands over are fresh. -/
theorem handle (h : c.Valid) (o : Owner ω) (e : ConnectionEvent)
    (hfresh : ∀ i, e.arriving = some i → c.streams.Fresh i) (w : ω) :
    (ConnectionController.handle o e (c, w)).1.Valid := by
  cases e with
  | onStream i wraps =>
      cases wraps with
      | false =>
          exact ⟨h.incoming, h.backlog, h.streams.release (hfresh i rfl).unwrapped, h.each, h.ended⟩
      | true => exact (h.adopt (hfresh i rfl)).push i w
  | opened i wraps =>
      cases wraps with
      | false => exact h
      | true => exact h.adopt (hfresh i rfl)
  | onClose event => exact h.finish o _ w
  | close => exact h.finish o none w
  | stream i e => exact h.setIncoming h.incoming rfl h.ended rfl ((kept_refl h.each w).apply e i)
  | incomingNext =>
      exact h.setIncoming h.incoming.next (MessageQueue.next_capacity _)
        (fun hc => (MessageQueue.next_isClosed _).trans (h.ended hc)) rfl (kept_refl h.each w)
  | incomingReturn =>
      exact h.setIncoming (h.incoming.close incomingHooks none _)
        (MessageQueue.close_capacity _ _ _ _)
        (fun _ => MessageQueue.close_isClosed incomingHooks _ none _) rfl
        ((kept_refl h.each w).close c.incomingStreams none)

end Valid

/-! ## One-shot teardown -/

theorem onPeerStream_isClosed (i : ℕ) (wraps : Bool) (c : ConnectionController) (w : ω) :
    (onPeerStream i wraps (c, w)).1.isClosed = c.isClosed := by
  cases wraps <;> rfl

theorem onPeerStream_rest (i : ℕ) (wraps : Bool) (c : ConnectionController) (w : ω) :
    (onPeerStream i wraps (c, w)).2 = w := by
  cases wraps with
  | false => rfl
  | true =>
      exact MessageQueue.push_keeps (I := fun p : _ × ω => p.2 = w) (incomingHooks_local w)
        (fun _ _ hp => hp) c.incomingStreams i rfl

theorem finish_once (o : Owner ω) (error : Option IrohError) :
    Once isClosed o (finish o error) := by
  intro c w
  cases hc : c.isClosed with
  | true => rw [finish_closed o error hc]; exact Or.inl ⟨hc, rfl⟩
  | false =>
      refine Or.inr ⟨rfl, finish_isClosed o error _, ?_⟩
      rw [finish_open o error hc]

/-- A callback or a call leaves the owner alone, or it settles the connection,
releases the handle and tells the owner. -/
theorem handle_once (o : Owner ω) (e : ConnectionEvent) : Once isClosed o (handle o e) := by
  intro c w
  cases e with
  | onStream i wraps =>
      exact Or.inl ⟨onPeerStream_isClosed i wraps c w, onPeerStream_rest i wraps c w⟩
  | opened i wraps => cases wraps <;> exact Or.inl ⟨rfl, rfl⟩
  | onClose event => exact finish_once o _ c w
  | close => exact finish_once o none c w
  | stream i e => exact Or.inl ⟨rfl, Roster.apply_local (streamOp_local e i) (c.streams, w)⟩
  | incomingNext => exact Or.inl ⟨rfl, rfl⟩
  | incomingReturn =>
      exact Or.inl ⟨rfl, MessageQueue.close_keeps (I := fun p : _ × ω => p.2 = w)
        (incomingHooks_local w) c.incomingStreams none rfl⟩

/-! ## The streams after an event -/

/-- The streams once the id an event hands over is wrapped or given back. -/
def arrived (c : ConnectionController) : ConnectionEvent → Roster ℕ StreamController
  | .onStream i true => c.streams.adopt i (.new c.init.capacity)
  | .onStream i false => c.streams.release i
  | .opened i true => c.streams.adopt i (.new c.init.capacity)
  | _ => c.streams

section Streams

variable {c : ConnectionController}

/-- Apart from that, an event only closes streams. -/
theorem handle_evolves (h : c.Valid) (o : Owner ω) (e : ConnectionEvent)
    (hfresh : ∀ i, e.arriving = some i → c.streams.Fresh i) (w : ω) :
    (c.arrived e).Evolves StreamController.isClosed (handle o e (c, w)).1.streams := by
  have hfinish : ∀ error : Option IrohError,
      c.streams.Evolves StreamController.isClosed (finish o error (c, w)).1.streams := by
    intro error
    cases hc : c.isClosed with
    | true => rw [finish_closed o error hc]; exact .refl _ _
    | false => rw [finish_open o error hc]; exact (tornDown_kept error h.each w).evolves
  cases e with
  | onStream i wraps =>
      cases wraps with
      | false => exact .refl _ _
      | true =>
          exact ((kept_refl (h.adopt (hfresh i rfl)).each w).push c.incomingStreams i).evolves
  | opened i wraps => cases wraps <;> exact .refl _ _
  | onClose event => exact hfinish _
  | close => exact hfinish none
  | stream i e => exact .apply (streamOp_oneShot e i) (c.streams, w)
  | incomingNext => exact .refl _ _
  | incomingReturn => exact ((kept_refl h.each w).close c.incomingStreams none).evolves

/-- An event that ends the connection leaves no stream open. -/
theorem handle_allClosed (h : c.Valid) (o : Owner ω) (e : ConnectionEvent) (w : ω)
    (hopen : c.isClosed = false) (hclosed : (handle o e (c, w)).1.isClosed = true) :
    (handle o e (c, w)).1.streams.AllClosed StreamController.isClosed := by
  have hfinish : ∀ error : Option IrohError,
      (finish o error (c, w)).1.streams.AllClosed StreamController.isClosed := by
    intro error
    rw [finish_open o error hopen]
    exact tornDown_allClosed error h.streams h.each w
  have hsame : ∀ c' : ConnectionController,
      c'.isClosed = c.isClosed → c'.isClosed = true → False := by
    intro c' hc ht
    rw [hc, hopen] at ht
    cases ht
  cases e with
  | onClose event => exact hfinish _
  | close => exact hfinish none
  | onStream i wraps => exact (hsame _ (onPeerStream_isClosed i wraps c w) hclosed).elim
  | opened i wraps => cases wraps <;> exact (hsame _ rfl hclosed).elim
  | stream i e => exact (hsame _ rfl hclosed).elim
  | incomingNext => exact (hsame _ rfl hclosed).elim
  | incomingReturn => exact (hsame _ rfl hclosed).elim

theorem arrived_fresh {i : ℕ} (hi : c.streams.Fresh i) {e : ConnectionEvent}
    (hne : e.arriving ≠ some i) : (c.arrived e).Fresh i := by
  cases e with
  | onStream j wraps =>
      have hij : i ≠ j := fun hij => hne (congrArg some hij.symm)
      cases wraps with
      | false => exact hi.release hij
      | true => exact hi.adopt hij _
  | opened j wraps =>
      have hij : i ≠ j := fun hij => hne (congrArg some hij.symm)
      cases wraps with
      | false => exact hi
      | true => exact hi.adopt hij _
  | onClose _ => exact hi
  | close => exact hi
  | stream _ _ => exact hi
  | incomingNext => exact hi
  | incomingReturn => exact hi

/-- An id stays fresh until an event hands it over. -/
theorem handle_fresh {i : ℕ} (hi : c.streams.Fresh i) (h : c.Valid) (o : Owner ω)
    (e : ConnectionEvent) (hfresh : ∀ i, e.arriving = some i → c.streams.Fresh i)
    (hne : e.arriving ≠ some i) (w : ω) : (handle o e (c, w)).1.streams.Fresh i :=
  (handle_evolves h o e hfresh w).fresh (arrived_fresh hi hne)

end Streams

end ConnectionController

end Iroh
