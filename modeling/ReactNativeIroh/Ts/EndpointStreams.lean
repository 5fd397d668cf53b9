import ReactNativeIroh.Ts.ListenerRun

/-!
# The listeners and connections of an endpoint

`streamListeners` and `streamConnections` are two rosters, and an event of a listener
acts on both.  A listener is known by its native id, like a connection.

`EndpointStreams.Valid` is the invariant of the pair: both rosters are sound, and the
connections a listener has queued or handed out are wrapped.  `closeAll` is the part
of the endpoint's `close()` that is about streams.  It closes the listeners and then
the connections, so every connection handed out before is closed after it.
-/

namespace Iroh

open Backlog Ownership

/-- A listener, and the options its connections are wrapped with. -/
structure EndpointListener where
  controller : StreamListenerController
  options : StreamOptions

namespace EndpointListener

def disposed (l : EndpointListener) : Bool := l.controller.disposed

/-- The connections the listener has handed out, then those in its queue. -/
def held (l : EndpointListener) : List ℕ := l.controller.accepted.held

def new (alpn : String) (options : StreamOptions) : EndpointListener := ⟨.new alpn, options⟩

end EndpointListener

/-- The listeners of an endpoint. -/
abbrev Listeners := Roster ℕ EndpointListener

/-- An event of listener `i`, as an operation on its roster.  The connections are the
rest of the state. -/
def listenerOp (e : ListenerEvent) (wraps : Bool) (i : ℕ) : Op ℕ EndpointListener Connections
  | (l, ledger, connections) =>
      let o : Owner (Ledger ℕ) := ⟨fun ledger => ledger.release i, fun ledger => ledger.dispose i⟩
      let (controller, connections, ledger) :=
        StreamListenerController.handled o l.options wraps e (l.controller, connections, ledger)
      ({ l with controller }, ledger, connections)

/-! ## What a listener event does -/

namespace StreamListenerController

variable {ω : Type*} {l : StreamListenerController} {r : Connections}

theorem connectionOp_local (e : ConnectionEvent) (i : ℕ) :
    Roster.Local (connectionOp e i : Op ℕ ConnectionController ω) :=
  Roster.local_of_once (ConnectionController.handle_once (Ledger.owner i) e)

/-- Closing the queue leaves alone what lies outside the connections. -/
theorem close_accepted_rest (q : MessageQueue ℕ IrohError) (error : Option IrohError)
    (p : Connections × ω) :
    (MessageQueue.close (hooks (connectionOp .close)) error (q, p)).2.2 = p.2 :=
  MessageQueue.close_keeps (I := fun p' : Connections × ω => p'.2 = p.2)
    (fun i p' h => (Roster.apply_local (connectionOp_local .close i) p').trans h) q error rfl

theorem push_accepted_rest (q : MessageQueue ℕ IrohError) (i : ℕ) (p : Connections × ω) :
    (MessageQueue.push (hooks (connectionOp .close)) i (q, p)).2.2 = p.2 :=
  MessageQueue.push_keeps (I := fun p' : Connections × ω => p'.2 = p.2)
    (fun i p' h => (Roster.apply_local (connectionOp_local .close i) p').trans h)
    (fun _ _ h => h) q i rfl

variable (o : Owner ω) (options : StreamOptions)

theorem finish_once (error : Option IrohError) (wraps : Bool) (w : ω) :
    ((finish (listenerHooks o l.alpn options wraps) error (l, r, w)).1.disposed = l.disposed ∧
      (finish (listenerHooks o l.alpn options wraps) error (l, r, w)).2.2 = w) ∨
    (l.disposed = false ∧
      (finish (listenerHooks o l.alpn options wraps) error (l, r, w)).1.disposed = true ∧
      (finish (listenerHooks o l.alpn options wraps) error (l, r, w)).2.2 =
        o.onDispose (o.release w)) := by
  cases hl : l.disposed with
  | true =>
      rw [finish_disposed _ _ hl]
      exact Or.inl ⟨hl, rfl⟩
  | false =>
      rw [finish_live _ _ hl]
      exact Or.inr ⟨rfl, rfl, congrArg o.onDispose (close_accepted_rest l.accepted error
        (r, o.release w))⟩

/-- A listener event stops listening, or it leaves the owner alone. -/
theorem handled_once (wraps : Bool) (e : ListenerEvent) (w : ω) :
    ((handled o options wraps e (l, r, w)).1.disposed = l.disposed ∧
      (handled o options wraps e (l, r, w)).2.2 = w) ∨
    (l.disposed = false ∧ (handled o options wraps e (l, r, w)).1.disposed = true ∧
      (handled o options wraps e (l, r, w)).2.2 = o.onDispose (o.release w)) := by
  cases e with
  | onConnection line =>
      refine Or.inl ?_
      rcases handled_line (l := l) (r := r) o options wraps line w with ⟨-, he⟩ | ⟨i, -, -, he⟩
      · rw [he]
        exact ⟨rfl, rfl⟩
      · rw [he]
        exact ⟨rfl, push_accepted_rest l.accepted i (_, w)⟩
  | onClose event => exact finish_once o options _ wraps w
  | close => exact finish_once o options none wraps w
  | next => exact Or.inl ⟨rfl, rfl⟩
  | «return» => exact Or.inl ⟨rfl, close_accepted_rest l.accepted none (r, w)⟩

theorem handled_close_disposed (wraps : Bool) (w : ω) :
    (handled o options wraps .close (l, r, w)).1.disposed = true := by
  simp only [handled, handle]
  cases hl : l.disposed with
  | true => rw [finish_disposed _ _ hl]; exact hl
  | false => rw [finish_live _ _ hl]

/-- What the queue of a listener keeps through every event. -/
structure Queued (l : StreamListenerController) : Prop where
  queue : l.accepted.Valid
  closed : l.disposed = true → l.accepted.isClosed = true

theorem queued_new (alpn : String) : (new alpn).Queued :=
  ⟨MessageQueue.valid_new _, nofun⟩

theorem Queued.finish (h : l.Queued) (error : Option IrohError) (wraps : Bool) (w : ω) :
    (StreamListenerController.finish (listenerHooks o l.alpn options wraps) error
      (l, r, w)).1.Queued := by
  cases hl : l.disposed with
  | true => rw [finish_disposed _ _ hl]; exact h
  | false =>
      rw [finish_live _ _ hl]
      exact ⟨h.queue.close _ error _, fun _ => MessageQueue.close_isClosed _ _ _ _⟩

theorem Queued.handled (h : l.Queued) (wraps : Bool) (e : ListenerEvent) (w : ω) :
    (StreamListenerController.handled o options wraps e (l, r, w)).1.Queued := by
  cases e with
  | onConnection line =>
      rcases handled_line (l := l) (r := r) o options wraps line w with ⟨-, he⟩ | ⟨i, -, -, he⟩
      · rw [he]
        exact h
      · rw [he]
        refine ⟨h.queue.push (fun _ _ hv => hv) i _, ?_⟩
        intro hd
        have hc := h.closed hd
        rw [MessageQueue.push_closed _ hc]
        exact hc
  | onClose event => exact h.finish o options _ wraps w
  | close => exact h.finish o options none wraps w
  | next => exact ⟨h.queue.next, fun hd => (MessageQueue.next_isClosed _).trans (h.closed hd)⟩
  | «return» =>
      exact ⟨h.queue.close _ none _, fun _ => MessageQueue.close_isClosed _ _ _ _⟩

theorem finish_held (h : l.Queued) (error : Option IrohError) (wraps : Bool) (w : ω) :
    (finish (listenerHooks o l.alpn options wraps) error (l, r, w)).1.accepted.held ⊆
      l.accepted.held := by
  cases hl : l.disposed with
  | true => rw [finish_disposed _ _ hl]; exact fun _ hi => hi
  | false =>
      rw [finish_live _ _ hl]
      exact (MessageQueue.close_held_sublist _ h.queue.consumers error _).subset

/-- Only a connection that was just wrapped may join the queue, while it is open. -/
theorem handled_held (h : l.Queued) (wraps : Bool) (e : ListenerEvent) (w : ω) {i : ℕ}
    (hi : i ∈ (handled o options wraps e (l, r, w)).1.accepted.held) :
    i ∈ l.accepted.held ∨
      (wraps = true ∧ e.accepts = some i ∧ l.accepted.isClosed = false) := by
  cases e with
  | onConnection line =>
      rcases handled_line (l := l) (r := r) o options wraps line w with
        ⟨-, he⟩ | ⟨j, hj, hwraps, he⟩
      · rw [he] at hi
        exact Or.inl hi
      · rw [he] at hi
        cases hc : l.accepted.isClosed with
        | true =>
            simp only [MessageQueue.push_closed _ hc] at hi
            exact Or.inl hi
        | false =>
            have hsub := (MessageQueue.push_held (fun _ _ _ => .refl _) h.queue j _).subset hi
            rcases List.mem_append.mp hsub with hold | hnew
            · exact Or.inl hold
            · obtain rfl := List.mem_singleton.mp hnew
              exact Or.inr ⟨hwraps, hj, rfl⟩
  | onClose event => exact Or.inl (finish_held o options h _ wraps w hi)
  | close => exact Or.inl (finish_held o options h none wraps w hi)
  | next => exact Or.inl ((MessageQueue.next_held l.accepted) ▸ hi)
  | «return» =>
      exact Or.inl ((MessageQueue.close_held_sublist _ h.queue.consumers none _).subset hi)

/-! ## What a listener event does to the connections -/

theorem arrived_grows (alpn : String) (wraps : Bool) {e : ListenerEvent}
    (hfresh : ∀ i, e.accepts = some i → r.Fresh i) :
    r.Grows ConnectionController.isClosed (arrived options alpn wraps e r) := by
  rcases arrived_cases options alpn wraps e r with ⟨-, he⟩ | ⟨i, -, -, he⟩ | ⟨i, init, hi, -, he⟩
  · rw [he]
    exact .refl _ r
  · rw [he]
    exact .release i r
  · rw [he]
    exact .adopt (hfresh i hi).unwrapped _

theorem arrived_sound (alpn : String) (wraps : Bool) {e : ListenerEvent}
    (hfresh : ∀ i, e.accepts = some i → r.Fresh i) (hr : r.Sound ConnectionController.isClosed) :
    (arrived options alpn wraps e r).Sound ConnectionController.isClosed := by
  rcases arrived_cases options alpn wraps e r with ⟨-, he⟩ | ⟨i, hi, -, he⟩ | ⟨i, init, hi, -, he⟩
  · rwa [he]
  · rw [he]
    exact hr.release (hfresh i hi).unwrapped
  · rw [he]
    exact hr.adopt (hfresh i hi) rfl

theorem arrived_wrapped (alpn : String) {e : ListenerEvent} {i : ℕ} (hi : e.accepts = some i) :
    ((arrived options alpn true e r).objects i).isSome = true := by
  rcases arrived_cases options alpn true e r with
    ⟨hnone, -⟩ | ⟨j, -, hfalse, -⟩ | ⟨j, init, hj, -, he⟩
  · rw [hi] at hnone
    cases hnone
  · cases hfalse
  · obtain rfl := Option.some.inj (hi.symm.trans hj)
    rw [he]
    simp [Roster.adopt]

section Handled

variable (wraps : Bool) {e : ListenerEvent} (hfresh : ∀ i, e.accepts = some i → r.Fresh i) (w : ω)

include hfresh

theorem handled_grows :
    r.Grows ConnectionController.isClosed (handled o options wraps e (l, r, w)).2.1 :=
  (arrived_grows options l.alpn wraps hfresh).trans (handled_evolves o options wraps e w).grows

theorem handled_sound (hr : r.Sound ConnectionController.isClosed) :
    (handled o options wraps e (l, r, w)).2.1.Sound ConnectionController.isClosed :=
  (handled_evolves o options wraps e w).sound (arrived_sound options l.alpn wraps hfresh hr)

omit hfresh in
theorem handled_wraps {i : ℕ} (hi : e.accepts = some i) :
    ((handled o options true e (l, r, w)).2.1.objects i).isSome = true :=
  (handled_evolves o options true e w).grows.wrapped i (arrived_wrapped options l.alpn hi)

omit hfresh in
theorem handled_fresh {i : ℕ} (h : r.Fresh i) (hi : e.accepts ≠ some i) :
    (handled o options wraps e (l, r, w)).2.1.Fresh i :=
  (handled_evolves o options wraps e w).fresh (arrived_fresh options l.alpn wraps h hi)

end Handled

end StreamListenerController

/-! ## The pair of rosters -/

theorem listenerOp_oneShot (e : ListenerEvent) (wraps : Bool) (i : ℕ) :
    OneShot EndpointListener.disposed i (listenerOp e wraps i) := by
  intro l ledger connections
  exact StreamListenerController.handled_once _ l.options wraps e ledger

theorem listenerOp_close_disposes (wraps : Bool) (i : ℕ)
    (p : EndpointListener × Ledger ℕ × Connections) :
    (listenerOp .close wraps i p).1.disposed = true :=
  StreamListenerController.handled_close_disposed _ _ _ _

/-- The listeners and the connections of an endpoint. -/
abbrev EndpointStreams := Listeners × Connections

namespace EndpointStreams

/-- `listen`, once the native side has returned a listener id. -/
def listen (alpn : String) (options : StreamOptions) (listenerId : ℕ) (p : EndpointStreams) :
    EndpointStreams :=
  (p.1.adopt listenerId (.new alpn options), p.2)

def onListener (listenerId : ℕ) (e : ListenerEvent) (wraps : Bool) (p : EndpointStreams) :
    EndpointStreams :=
  Roster.apply listenerId (listenerOp e wraps listenerId) p

def onConnection (connectionId : ℕ) (e : ConnectionEvent) (p : EndpointStreams) :
    EndpointStreams :=
  (p.1, (Roster.apply connectionId (connectionOp e connectionId) (p.2, ())).1)

/-- Close each listener of the snapshot. -/
def closeListeners (p : EndpointStreams) : EndpointStreams :=
  Roster.applyAll (listenerOp .close true) p.1.ledger.live p

/-- Close each connection of the snapshot. -/
def closeConnections (p : EndpointStreams) : EndpointStreams :=
  (p.1, (Roster.applyAll (connectionOp .close) p.2.ledger.live (p.2, ())).1)

def closeAll (p : EndpointStreams) : EndpointStreams := p.closeListeners.closeConnections

/-- A property of every connection a listener has handed out or queued. -/
def HeldAll (P : ℕ → Prop) (p : EndpointStreams) : Prop :=
  ∀ j l, p.1.objects j = some l → ∀ i ∈ l.held, P i

structure Valid (p : EndpointStreams) : Prop where
  listeners : p.1.Sound EndpointListener.disposed
  connections : p.2.Sound ConnectionController.isClosed
  queued : ∀ j l, p.1.objects j = some l → l.controller.Queued
  held : p.HeldAll fun i => (p.2.objects i).isSome = true

/-- Nothing is listening, and what the listeners handed out is closed. -/
structure Down (p : EndpointStreams) : Prop where
  listeners : p.1.AllClosed EndpointListener.disposed
  held : p.HeldAll (p.2.Closed ConnectionController.isClosed)

variable {p : EndpointStreams} {P Q : ℕ → Prop}

theorem HeldAll.mono (h : p.HeldAll P) (hPQ : ∀ i, P i → Q i) : p.HeldAll Q :=
  fun j l hl i hi => hPQ i (h j l hl i hi)

theorem valid_new : Valid ({}, {}) where
  listeners := .empty
  connections := .empty
  queued _ _ := nofun
  held _ _ := nofun

/-! ## One listener event -/

section OnListener

variable (j : ℕ) {e : ListenerEvent} (wraps : Bool)

theorem onListener_none (h : p.1.objects j = none) : p.onListener j e wraps = p :=
  Roster.apply_none h p.2

/-- The listener becomes what the event makes of it, the other listeners stay. -/
theorem onListener_object {k : ℕ} {l l' : EndpointListener} (h : p.1.objects j = some l)
    (hk : (p.onListener j e wraps).1.objects k = some l') :
    (k = j ∧ l' = (listenerOp e wraps j (l, p.1.ledger, p.2)).1) ∨
      p.1.objects k = some l' := by
  by_cases hkj : k = j
  · subst hkj
    rw [onListener, Roster.apply_self (r := p.1) h p.2] at hk
    exact Or.inl ⟨rfl, (Option.some.inj hk).symm⟩
  · rw [onListener, Roster.apply_of_ne hkj] at hk
    exact Or.inr hk

theorem onListener_rest {l : EndpointListener} (h : p.1.objects j = some l) :
    (p.onListener j e wraps).2 = (listenerOp e wraps j (l, p.1.ledger, p.2)).2.2 :=
  congrArg Prod.snd (Roster.apply_some (r := p.1) h p.2)

theorem onListener_evolves :
    p.1.Evolves EndpointListener.disposed (p.onListener j e wraps).1 :=
  .apply (listenerOp_oneShot e wraps j) p

theorem HeldAll.onListener (h : p.HeldAll P)
    (hqueued : ∀ j l, p.1.objects j = some l → l.controller.Queued)
    (hnew : ∀ l i, p.1.objects j = some l → l.controller.accepted.isClosed = false →
      wraps = true → e.accepts = some i → P i) :
    (p.onListener j e wraps).HeldAll P := by
  cases hl : p.1.objects j with
  | none => rw [onListener_none j wraps hl]; exact h
  | some l =>
      intro k l' hk i hi
      rcases onListener_object j wraps hl hk with ⟨-, rfl⟩ | hold
      · rcases StreamListenerController.handled_held _ l.options (hqueued j l hl) wraps e _ hi with
          hheld | ⟨hwraps, haccepts, hopen⟩
        · exact h j l hl i hheld
        · exact hnew l i hl hopen hwraps haccepts
      · exact h k l' hold i hi

theorem Valid.onListener_queued (h : p.Valid) :
    ∀ k l, (p.onListener j e wraps).1.objects k = some l → l.controller.Queued := by
  intro k l' hk
  cases hl : p.1.objects j with
  | none => rw [onListener_none j wraps hl] at hk; exact h.queued k l' hk
  | some l =>
      rcases onListener_object j wraps hl hk with ⟨-, rfl⟩ | hold
      · exact (h.queued j l hl).handled _ l.options wraps e _
      · exact h.queued k l' hold

variable (hfresh : ∀ i, e.accepts = some i → p.2.Fresh i)

include hfresh

theorem onListener_grows :
    p.2.Grows ConnectionController.isClosed (p.onListener j e wraps).2 := by
  cases hl : p.1.objects j with
  | none => rw [onListener_none j wraps hl]; exact .refl _ p.2
  | some l =>
      rw [onListener_rest j wraps hl]
      exact StreamListenerController.handled_grows _ l.options wraps hfresh _

theorem Valid.onListener (h : p.Valid) : (p.onListener j e wraps).Valid where
  listeners := (onListener_evolves j wraps).sound h.listeners
  connections := by
    cases hl : p.1.objects j with
    | none => rw [onListener_none j wraps hl]; exact h.connections
    | some l =>
        rw [onListener_rest j wraps hl]
        exact StreamListenerController.handled_sound _ l.options wraps hfresh _ h.connections
  queued := h.onListener_queued j wraps
  held := by
    have hgrows := onListener_grows j wraps hfresh
    refine (h.held.mono hgrows.wrapped).onListener j wraps h.queued fun l i hl _ hwraps hi => ?_
    subst hwraps
    rw [onListener_rest j true hl]
    exact StreamListenerController.handled_wraps _ l.options _ hi

theorem Down.onListener (hd : p.Down) (h : p.Valid) : (p.onListener j e wraps).Down where
  listeners := (onListener_evolves j wraps).allClosed hd.listeners
  held := by
    have hgrows := onListener_grows j wraps hfresh
    refine (hd.held.mono hgrows.staysClosed).onListener j wraps h.queued fun l i hl hopen _ _ => ?_
    have hclosed := (h.queued j l hl).closed (hd.listeners j l hl)
    rw [hopen] at hclosed
    cases hclosed

end OnListener

/-- An id that no roster knows, and that the event does not hand over, stays unknown. -/
theorem onListener_fresh (j : ℕ) (wraps : Bool) {e : ListenerEvent} {i : ℕ} (h : p.2.Fresh i)
    (hi : e.accepts ≠ some i) : (p.onListener j e wraps).2.Fresh i := by
  cases hl : p.1.objects j with
  | none => rw [onListener_none j wraps hl]; exact h
  | some l =>
      rw [onListener_rest j wraps hl]
      exact StreamListenerController.handled_fresh _ l.options wraps _ h hi

/-! ## The other steps -/

section Grow

variable {r : Connections} (hr : p.2.Grows ConnectionController.isClosed r)

include hr

/-- The connections alone change. -/
theorem Valid.grow (h : p.Valid) (hsound : r.Sound ConnectionController.isClosed) :
    Valid (p.1, r) :=
  ⟨h.listeners, hsound, h.queued, h.held.mono hr.wrapped⟩

theorem Down.grow (h : p.Down) : Down (p.1, r) :=
  ⟨h.listeners, h.held.mono hr.staysClosed⟩

end Grow

theorem onConnection_evolves (i : ℕ) (e : ConnectionEvent) :
    p.2.Evolves ConnectionController.isClosed (p.onConnection i e).2 :=
  .apply (connectionOp_oneShot e i) (p.2, ())

theorem Valid.listen (h : p.Valid) {j : ℕ} (hj : p.1.Fresh j) (alpn : String)
    (options : StreamOptions) : (p.listen alpn options j).Valid where
  listeners := h.listeners.adopt hj rfl
  connections := h.connections
  queued k l hk := by
    by_cases hkj : k = j
    · subst hkj
      obtain rfl := Option.some.inj (hk.symm.trans (Function.update_self ..))
      exact StreamListenerController.queued_new alpn
    · exact h.queued k l ((Roster.adopt_of_ne hkj _).symm.trans hk)
  held k l hk i hi := by
    by_cases hkj : k = j
    · subst hkj
      obtain rfl := Option.some.inj (hk.symm.trans (Function.update_self ..))
      exact absurd hi List.not_mem_nil
    · exact h.held k l ((Roster.adopt_of_ne hkj _).symm.trans hk) i hi

/-! ## Closing everything -/

/-- Closing listeners keeps the invariant and closes connections at most. -/
theorem closeListeners_spec (h : p.Valid) :
    p.closeListeners.Valid ∧ p.2.Evolves ConnectionController.isClosed p.closeListeners.2 := by
  refine Roster.applyAll_invariant (p := p)
    (I := fun q => Valid q ∧ p.2.Evolves ConnectionController.isClosed q.2)
    (fun j q hq => ?_) p.1.ledger.live ⟨h, .refl _ p.2⟩
  refine ⟨hq.1.onListener j true nofun, hq.2.trans ?_⟩
  cases hl : q.1.objects j with
  | none => rw [Roster.apply_none hl]; exact .refl _ q.2
  | some l =>
      rw [Roster.apply_some (r := q.1) hl]
      exact StreamListenerController.handled_evolves _ l.options true .close _

theorem closeListeners_evolves :
    p.1.Evolves EndpointListener.disposed p.closeListeners.1 :=
  .applyAll (fun j => listenerOp_oneShot .close true j) p.1.ledger.live p

theorem Valid.closeListeners_disposed (h : p.Valid) :
    p.closeListeners.1.AllClosed EndpointListener.disposed := by
  intro j l hl
  have hwrapped : (p.1.objects j).isSome = true := by
    rw [← closeListeners_evolves.wrapped j, hl]
    rfl
  obtain ⟨l', hl', hd⟩ := h.listeners.closeAll_closed (p := p)
    (fun j => listenerOp_oneShot .close true j) (listenerOp_close_disposes true) hwrapped
  obtain rfl := Option.some.inj (hl'.symm.trans hl)
  exact hd

theorem closeConnections_evolves :
    p.2.Evolves ConnectionController.isClosed p.closeConnections.2 :=
  .applyAll (connectionOp_oneShot .close) p.2.ledger.live (p.2, ())

theorem Valid.closeConnections_closed (h : p.Valid) {i : ℕ}
    (hi : (p.2.objects i).isSome = true) :
    p.closeConnections.2.Closed ConnectionController.isClosed i :=
  Roster.Sound.closeAll_closed (p := (p.2, ())) h.connections (connectionOp_oneShot .close)
    connectionOp_close_closes hi

theorem Valid.closeAll (h : p.Valid) : p.closeAll.Valid :=
  (closeListeners_spec h).1.grow closeConnections_evolves.grows
    (closeConnections_evolves.sound (closeListeners_spec h).1.connections)

theorem Valid.closeAll_evolves (h : p.Valid) :
    p.2.Evolves ConnectionController.isClosed p.closeAll.2 :=
  (closeListeners_spec h).2.trans closeConnections_evolves

/-- Every connection wrapped before is closed. -/
theorem Valid.closeAll_closed (h : p.Valid) {i : ℕ} (hi : (p.2.objects i).isSome = true) :
    p.closeAll.2.Closed ConnectionController.isClosed i :=
  (closeListeners_spec h).1.closeConnections_closed
    ((closeListeners_spec h).2.grows.wrapped i hi)

theorem Valid.closeAll_down (h : p.Valid) : p.closeAll.Down where
  listeners := h.closeListeners_disposed
  held j l hl i hi := by
    have hvalid := (closeListeners_spec h).1
    exact hvalid.closeConnections_closed (hvalid.held j l hl i hi)

end EndpointStreams

end Iroh
