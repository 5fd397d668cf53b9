import ReactNativeIroh.Ts.ConnectionRun
import ReactNativeIroh.Ts.Listener

/-!
# Where the accepted connections are

A listener of an endpoint, with the connections of that endpoint.  The roster of the
connections is the endpoint's: its open set is `streamConnections`, and its released
handles are the ids `closeConnection` was called with.

Every connection a listener accepts should be with exactly one consumer, waiting in
the open queue `accepted`, or closed.  Like a connection's queue of incoming streams,
`accepted` closes what it discards, but a push into it after it was closed is dropped,
and the connection it was to hold has been wrapped.  `Heard` excludes that step, and
`accepted_connections_placed` is about the runs without it.
-/

namespace Iroh

open Backlog Ownership Transition

/-- The options of `listen` and `connect`. -/
structure StreamOptions where
  framing : StreamFraming := .framed
  capacity : Option Number := none
deriving DecidableEq

/-- The connections of an endpoint. -/
abbrev Connections := Roster ℕ ConnectionController

section Connections

variable {ω : Type*}

/-- An event of connection `i`, as an operation on the roster. -/
def connectionOp (e : ConnectionEvent) (i : ℕ) : Op ℕ ConnectionController ω :=
  ConnectionController.handle (Ledger.owner i) e

theorem connectionOp_oneShot (e : ConnectionEvent) (i : ℕ) :
    OneShot ConnectionController.isClosed i (connectionOp e i : Op ℕ _ ω) :=
  (ConnectionController.handle_once _ e).oneShot

theorem connectionOp_close_closes (i : ℕ) (p : ConnectionController × Ledger ℕ × ω) :
    (connectionOp .close i p).1.isClosed = true :=
  ConnectionController.finish_isClosed _ none p

/-- Wrap one native connection and register it for the teardown of the endpoint.
`none` when `streamConnectionSubscribe` throws. -/
def adoptStreamConnection (connectionId : ℕ) (init : ConnectionInit) (wraps : Bool)
    (r : Connections) : Option Connections :=
  if wraps then some (r.adopt connectionId (.new init)) else none

/-- The hooks of a listener on `alpn`, whose own owner is `o`. -/
def listenerHooks (o : Owner ω) (alpn : String) (options : StreamOptions) (wraps : Bool) :
    ListenerHooks (Connections × ω) where
  release p := (p.1, o.release p.2)
  onDispose p := (p.1, o.onDispose p.2)
  createConnection i remoteId p :=
    (adoptStreamConnection i ⟨remoteId, alpn, options.framing, options.capacity⟩ wraps p.1).map
      fun r => (r, p.2)
  closeConnection i p := (p.1.release i, p.2)
  close i p := Roster.apply i (connectionOp .close i) p

end Connections

namespace ListenerEvent

/-- The native connection the event hands over. -/
def accepts : ListenerEvent → Option ℕ
  | .onConnection line => (parseLine line).map Prod.fst
  | _ => none

/-- The binding sends a line only for a connection it has accepted. -/
def isSent : ListenerEvent → Bool
  | .onConnection line => (parseLine line).any fun p => acceptedLine p.1 p.2 == line
  | _ => true

theorem isSent_iff {line : String} : (ListenerEvent.onConnection line).isSent = true ↔
    ∃ connectionId remoteId, line = acceptedLine connectionId remoteId := by
  constructor
  · intro h
    obtain ⟨p, -, hp⟩ := Option.any_eq_true _ _ |>.mp h
    exact ⟨p.1, p.2, (eq_of_beq hp).symm⟩
  · rintro ⟨connectionId, remoteId, rfl⟩
    rw [isSent, StreamListenerController.parseLine_acceptedLine]
    exact beq_self_eq_true _

theorem accepts_none {taken : List ℕ} {e : ListenerEvent} (h : e.accepts = none) :
    taken ++ e.accepts.toList = taken := by
  rw [h, Option.toList_none, List.append_nil]

end ListenerEvent

/-! ## What a listener does to the connections -/

namespace StreamListenerController

variable {ω : Type*} {l : StreamListenerController} {r : Connections}

/-- A listener event, and whether the connection it hands over can be wrapped. -/
def handled (o : Owner ω) (options : StreamOptions) (wraps : Bool) (e : ListenerEvent)
    (p : StreamListenerController × Connections × ω) : StreamListenerController × Connections × ω :=
  handle (listenerHooks o p.1.alpn options wraps) e p

variable {taken : List ℕ} (o : Owner ω) (options : StreamOptions)

/-- The connections once the one an event hands over has been wrapped, or given back. -/
def arrived (alpn : String) (wraps : Bool) : ListenerEvent → Connections → Connections
  | .onConnection line, r =>
      match parseLine line with
      | none => r
      | some (i, remoteId) =>
          if wraps then r.adopt i (.new ⟨remoteId, alpn, options.framing, options.capacity⟩)
          else r.release i
  | _, r => r

/-- An event hands over no connection, or one that is given back, or one that is wrapped. -/
theorem arrived_cases (alpn : String) (wraps : Bool) (e : ListenerEvent) (r : Connections) :
    (e.accepts = none ∧ arrived options alpn wraps e r = r) ∨
    (∃ i, e.accepts = some i ∧ wraps = false ∧ arrived options alpn wraps e r = r.release i) ∨
    (∃ i init, e.accepts = some i ∧ wraps = true ∧
      arrived options alpn wraps e r = r.adopt i (.new init)) := by
  cases e with
  | onConnection line =>
      cases hline : parseLine line with
      | none => exact Or.inl (by simp [ListenerEvent.accepts, arrived, hline])
      | some pair =>
          obtain ⟨i, remoteId⟩ := pair
          cases wraps with
          | false =>
              exact Or.inr (Or.inl ⟨i, by simp [ListenerEvent.accepts, arrived, hline]⟩)
          | true =>
              refine Or.inr (Or.inr ⟨i, ⟨remoteId, alpn, options.framing, options.capacity⟩, ?_⟩)
              simp [ListenerEvent.accepts, arrived, hline]
  | onClose _ => exact Or.inl ⟨rfl, rfl⟩
  | close => exact Or.inl ⟨rfl, rfl⟩
  | next => exact Or.inl ⟨rfl, rfl⟩
  | «return» => exact Or.inl ⟨rfl, rfl⟩

/-- A line does nothing else to the listener than push a connection that was wrapped. -/
theorem handled_line (wraps : Bool) (line : String) (w : ω) :
    ((wraps = true → (ListenerEvent.onConnection line).accepts = none) ∧
      handled o options wraps (.onConnection line) (l, r, w) =
        (l, arrived options l.alpn wraps (.onConnection line) r, w)) ∨
    (∃ i, (ListenerEvent.onConnection line).accepts = some i ∧ wraps = true ∧
      handled o options wraps (.onConnection line) (l, r, w) =
        ({ l with accepted := (MessageQueue.push (hooks (connectionOp .close)) i (l.accepted,
            arrived options l.alpn wraps (.onConnection line) r, w)).1 },
          (MessageQueue.push (hooks (connectionOp .close)) i (l.accepted,
            arrived options l.alpn wraps (.onConnection line) r, w)).2)) := by
  cases hline : parseLine line with
  | none =>
      exact Or.inl (by simp [handled, handle, onConnection, ListenerEvent.accepts, arrived, hline])
  | some pair =>
      cases wraps with
      | false =>
          refine Or.inl ⟨nofun, ?_⟩
          simp [handled, handle, onConnection, arrived, hline, listenerHooks, adoptStreamConnection]
      | true =>
          refine Or.inr ⟨pair.1, by simp [ListenerEvent.accepts, hline], rfl, ?_⟩
          simp only [handled, handle, onConnection, arrived, hline]
          rfl

theorem finish_evolves (error : Option IrohError) (wraps : Bool) (w : ω) :
    r.Evolves ConnectionController.isClosed
      (finish (listenerHooks o l.alpn options wraps) error (l, r, w)).2.1 := by
  cases hl : l.disposed with
  | true => rw [finish_disposed _ _ hl]; exact .refl _ r
  | false =>
      rw [finish_live _ _ hl]
      exact close_evolves (connectionOp_oneShot .close) l.accepted error (r, o.release w)

/-- Beyond that, connections are only closed. -/
theorem handled_evolves (wraps : Bool) (e : ListenerEvent) (w : ω) :
    (arrived options l.alpn wraps e r).Evolves ConnectionController.isClosed
      (handled o options wraps e (l, r, w)).2.1 := by
  cases e with
  | onConnection line =>
      rcases handled_line (l := l) (r := r) o options wraps line w with ⟨-, he⟩ | ⟨i, -, -, he⟩
      · rw [he]
        exact .refl _ _
      · rw [he]
        exact push_evolves (connectionOp_oneShot .close) l.accepted i (_, w)
  | onClose event => exact finish_evolves o options _ wraps w
  | close => exact finish_evolves o options none wraps w
  | next => exact .refl _ r
  | «return» => exact close_evolves (connectionOp_oneShot .close) l.accepted none (r, w)

theorem arrived_fresh (alpn : String) (wraps : Bool) {e : ListenerEvent} {i : ℕ} (h : r.Fresh i)
    (hi : e.accepts ≠ some i) : (arrived options alpn wraps e r).Fresh i := by
  have hne : ∀ {j}, e.accepts = some j → i ≠ j := by
    intro j hj hij
    exact hi (hij ▸ hj)
  rcases arrived_cases options alpn wraps e r with ⟨-, he⟩ | ⟨j, hj, -, he⟩ | ⟨j, init, hj, -, he⟩
  · rwa [he]
  · rw [he]
    exact h.release (hne hj)
  · rw [he]
    exact h.adopt (hne hj) _

/-! ## The invariant -/

/-- The invariant of the queue and the connections. -/
structure Placing (taken : List ℕ) (l : StreamListenerController) (r : Connections) : Prop where
  placing : Backlog.Placing ConnectionController.isClosed taken l.accepted r
  backlog : l.accepted.capacity = .ofOption (some DEFAULT_STREAM_BACKLOG)

namespace Placing

/-- The queue may be closed at any time. -/
theorem close (h : Placing taken l r) (error : Option IrohError) (w : ω) (wraps : Bool) :
    Backlog.Placing ConnectionController.isClosed taken
      (MessageQueue.close (acceptedHooks (listenerHooks o l.alpn options wraps)) error
        (l.accepted, r, w)).1
      (MessageQueue.close (acceptedHooks (listenerHooks o l.alpn options wraps)) error
        (l.accepted, r, w)).2.1 :=
  h.placing.close (connectionOp_oneShot .close) connectionOp_close_closes error w

theorem finish (h : Placing taken l r) (error : Option IrohError) (w : ω) (wraps : Bool) :
    Placing taken
      (StreamListenerController.finish (listenerHooks o l.alpn options wraps) error (l, r, w)).1
      (StreamListenerController.finish (listenerHooks o l.alpn options wraps) error
        (l, r, w)).2.1 := by
  cases hl : l.disposed with
  | true => rw [finish_disposed _ _ hl]; exact h
  | false =>
      rw [finish_live _ _ hl]
      exact ⟨h.close o options error (o.release w) wraps,
        (MessageQueue.close_capacity _ _ _ _).trans h.backlog⟩

/-- Every event keeps the invariant, if a connection that can be wrapped finds the
queue open. -/
theorem handled (h : Placing taken l r) {wraps : Bool} {e : ListenerEvent}
    (hfresh : ∀ i, e.accepts = some i → r.Fresh i ∧ i ∉ taken)
    (hheard : wraps = true → e.accepts ≠ none → l.accepted.isClosed = false) (w : ω) :
    Placing (taken ++ e.accepts.toList) (handled o options wraps e (l, r, w)).1
      (handled o options wraps e (l, r, w)).2.1 := by
  cases e with
  | onConnection line =>
      have harrived := arrived_cases options l.alpn wraps (.onConnection line) r
      rcases handled_line (l := l) (r := r) o options wraps line w with
        ⟨hnone, he⟩ | ⟨i, hi, hwraps, he⟩
      · rw [he]
        rcases harrived with ⟨hi, ha⟩ | ⟨i, hi, -, ha⟩ | ⟨i, init, hi, hwraps, ha⟩
        · rw [ha, ListenerEvent.accepts_none hi]
          exact h
        · rw [ha, hi]
          exact ⟨h.placing.refuse (hfresh i hi).1 (hfresh i hi).2, h.backlog⟩
        · rw [hnone hwraps] at hi
          cases hi
      · rcases harrived with ⟨hi', -⟩ | ⟨j, -, hfalse, -⟩ | ⟨j, init, hj, -, ha⟩
        · rw [hi] at hi'
          cases hi'
        · rw [hwraps] at hfalse
          cases hfalse
        · obtain rfl := Option.some.inj (hi.symm.trans hj)
          rw [he, hi, ha]
          exact ⟨h.placing.push (connectionOp_oneShot .close) connectionOp_close_closes
              (hheard hwraps (by rw [hi]; nofun)) (hfresh i hi).1 (hfresh i hi).2 rfl w,
            (MessageQueue.push_capacity (fun _ _ => rfl) _ _ _).trans h.backlog⟩
  | onClose event =>
      rw [ListenerEvent.accepts_none rfl]
      exact h.finish o options _ w wraps
  | close =>
      rw [ListenerEvent.accepts_none rfl]
      exact h.finish o options none w wraps
  | next =>
      rw [ListenerEvent.accepts_none rfl]
      exact ⟨h.placing.next, (MessageQueue.next_capacity _).trans h.backlog⟩
  | «return» =>
      rw [ListenerEvent.accepts_none rfl]
      exact ⟨h.close o options none w wraps, (MessageQueue.close_capacity _ _ _ _).trans h.backlog⟩

end Placing

end StreamListenerController

/-! ## Runs -/

/-- A listener, the connections, its owner's state, and the ids it has accepted. -/
structure ListenerRun (ω : Type*) where
  listener : StreamListenerController
  connections : Connections := {}
  world : ω
  taken : List ℕ := []

/-- An event of the listener, with the outcome of wrapping the connection it hands
over, or an event of a connection. -/
inductive ListenerAction where
  | event (e : ListenerEvent) (wraps : Bool)
  | connection (connectionId : ℕ) (e : ConnectionEvent)

namespace ListenerRun

variable {ω : Type*} (o : Owner ω) (options : StreamOptions)

def after (x : ListenerRun ω) (e : ListenerEvent) (wraps : Bool) : ListenerRun ω :=
  let (listener, connections, world) :=
    StreamListenerController.handled o options wraps e (x.listener, x.connections, x.world)
  { listener, connections, world, taken := x.taken ++ e.accepts.toList }

def afterConnection (x : ListenerRun ω) (i : ℕ) (e : ConnectionEvent) : ListenerRun ω :=
  let (connections, world) := Roster.apply i (connectionOp e i) (x.connections, x.world)
  { x with connections, world }

/-- The native side hands out a connection id once, in a line of its own. -/
def step (x : ListenerRun ω) : ListenerAction → Option (ListenerRun ω)
  | .event e wraps =>
      if e.isSent ∧ e.accepts.all fun i => decide (i ∉ x.taken) then
        some (x.after o options e wraps)
      else none
  | .connection i e => some (x.afterConnection i e)

/-- Everything a step can do. -/
theorem step_cases {x y : ListenerRun ω} {a : ListenerAction} (h : x.step o options a = some y) :
    (∃ e wraps, a = .event e wraps ∧ (∀ i, e.accepts = some i → i ∉ x.taken) ∧
      y = x.after o options e wraps) ∨
    (∃ i e, a = .connection i e ∧ y = x.afterConnection i e) := by
  cases a with
  | event e wraps =>
      simp only [step] at h
      split at h
      · next hnew =>
          refine Or.inl ⟨e, wraps, rfl, fun i hi => ?_, (Option.some.inj h).symm⟩
          simpa [hi] using hnew.2
      · cases h
  | connection i e => exact Or.inr ⟨i, e, rfl, (Option.some.inj h).symm⟩

end ListenerRun

/-- The machine of a listener that was just created. -/
def listenerMachine {ω : Type*} (o : Owner ω) (alpn : String) (options : StreamOptions) (w : ω) :
    Machine (ListenerRun ω) ListenerAction where
  init x := x = { listener := .new alpn, world := w }
  step := ListenerRun.step o options

namespace ListenerRun

variable {ω : Type*}

/-- A connection that can be wrapped finds the queue of accepted connections open. -/
def Heard (x : ListenerRun ω) : ListenerAction → Prop
  | .event e true => e.accepts ≠ none → x.listener.accepted.isClosed = false
  | _ => True

/-- What holds in every run whose steps are heard. -/
structure Valid (x : ListenerRun ω) : Prop where
  placing : x.listener.Placing x.taken x.connections
  fresh : ∀ i, i ∉ x.taken → x.connections.Fresh i

theorem valid_invariant (o : Owner ω) (alpn : String) (options : StreamOptions) (w : ω) :
    (listenerMachine o alpn options w).Invariant Heard Valid where
  init x hx := by
    obtain rfl := hx
    exact ⟨⟨.empty _, rfl⟩, fun i _ => Roster.Fresh.empty i⟩
  step x a y hx hheard hy := by
    rcases step_cases o options hy with ⟨e, wraps, rfl, hnew, rfl⟩ | ⟨i, e, rfl, rfl⟩
    · refine ⟨hx.placing.handled o options (fun i hi => ⟨hx.fresh i (hnew i hi), hnew i hi⟩)
        (fun hwraps => ?_) x.world, fun i hi => ?_⟩
      · subst hwraps
        exact hheard
      · simp only [after, List.mem_append, Option.mem_toList, not_or] at hi
        exact (StreamListenerController.handled_evolves o options wraps e x.world).fresh
          (StreamListenerController.arrived_fresh options _ wraps (hx.fresh i hi.1) hi.2)
    · have he := Roster.Evolves.apply (connectionOp_oneShot e i) (x.connections, x.world)
      exact ⟨⟨hx.placing.placing.evolves he, hx.placing.backlog⟩, fun j hj =>
        he.fresh (hx.fresh j hj)⟩

/-- The queue is within the backlog and every accepted connection is placed. -/
def AcceptedPlaced (x : ListenerRun ω) : Prop :=
  x.listener.accepted.buffer.length ≤ 64 ∧
    ∀ i ∈ x.taken, Placed x.listener.accepted x.connections i

theorem accepted_connections_placed (o : Owner ω) (alpn : String) (options : StreamOptions) (w : ω)
    {x : ListenerRun ω} (hx : (listenerMachine o alpn options w).Reachable Heard x) :
    x.AcceptedPlaced := by
  have hvalid := (valid_invariant o alpn options w).reachable hx
  refine ⟨?_, fun i hi => hvalid.placing.placing.placed hi⟩
  have hb := hvalid.placing.placing.queue.bounded
  rw [hvalid.placing.backlog] at hb
  exact Capacity.le_of_not_exceeded (k := 64) (by decide) hb

/-- A listener that was just created, whose owner does nothing. -/
def idle : ListenerRun Unit := { listener := .new "alpn", world := () }

/-- Two connections, and a consumer that asked once and then left the loop. -/
def twoAccepted : ListenerRun Unit :=
  (((idle.after ⟨id, id⟩ {} (.onConnection "7 peer") true).after ⟨id, id⟩ {} .next true).after
    ⟨id, id⟩ {} (.onConnection "8 peer") true).after ⟨id, id⟩ {} .return true

theorem accepted_connections_placed_two :
    twoAccepted.taken = [7, 8] ∧ twoAccepted.AcceptedPlaced := by
  refine ⟨by decide, accepted_connections_placed ⟨id, id⟩ "alpn" {} () ⟨idle, rfl, ?_⟩⟩
  refine .cons (.event (.onConnection "7 peer") true) (fun _ => rfl) (by rfl) <|
    .cons (.event .next true) (fun _ => rfl) rfl <|
    .cons (.event (.onConnection "8 peer") true) (fun _ => rfl) (by rfl) <|
    .cons (.event .return true) (fun _ => rfl) rfl .refl

/-- A connection is accepted while the listener is being closed. -/
def acceptedLate : ListenerRun Unit :=
  (idle.after ⟨id, id⟩ {} .close true).after ⟨id, id⟩ {} (.onConnection "7 peer") true

/-- Nobody can obtain that connection, and it is left open. -/
theorem accepted_late_leaks :
    (listenerMachine ⟨id, id⟩ "alpn" {} ()).Reachable Any acceptedLate ∧
      ¬ acceptedLate.AcceptedPlaced := by
  refine ⟨Machine.reachable_of_run
    [.event .close true, .event (.onConnection "7 peer") true] (s := idle) rfl (by rfl),
    fun hplaced => ?_⟩
  have hplace := hplaced.2 7 (by decide)
  revert hplace
  unfold Placed
  decide

end ListenerRun

end Iroh
