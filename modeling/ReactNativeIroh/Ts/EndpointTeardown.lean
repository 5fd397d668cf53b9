import ReactNativeIroh.Ts.Endpoint

/-!
# What is left when an endpoint is closed

When `close()` has settled, nothing of the endpoint should be left running.  The
transfers that waited in the queue are settled as cancelled, every subscription and
listener is disposed, no native address watch runs, and every connection handed to the
host is closed.

The cascade runs once.  What it tears down stays so (`Closed`), and the native side
lets nothing new start after `closeEndpoint` was called.  The exception is a promise
of `streamConnect` that was pending then: it may resolve after the cascade, and the
connection is wrapped and registered in a set that nobody closes any more.  `Timely`
excludes that step.
-/

namespace Iroh

open Ownership Transition

variable {φ α : Type*}

/-! ## Subscriptions -/

namespace Endpoint

variable {x : Endpoint φ α}

theorem onSubscription_evolves (i : ℕ) (e : GossipEvent) :
    x.gossipSubscriptions.Evolves GossipSubscriptionController.disposed
      (x.onSubscription i e).gossipSubscriptions :=
  .apply (GossipSubscriptionController.gossipOp_oneShot e i)
    (x.gossipSubscriptions, x.gossipUnsubscribed)

theorem unsubscribeAll_evolves :
    x.gossipSubscriptions.Evolves GossipSubscriptionController.disposed
      x.unsubscribeAll.gossipSubscriptions :=
  .applyAll (GossipSubscriptionController.gossipOp_oneShot .unsubscribe)
    x.gossipSubscriptions.ledger.live (x.gossipSubscriptions, x.gossipUnsubscribed)

theorem unsubscribeAll_allClosed
    (h : x.gossipSubscriptions.Sound GossipSubscriptionController.disposed) :
    x.unsubscribeAll.gossipSubscriptions.AllClosed GossipSubscriptionController.disposed := by
  intro i s hs
  have hwrapped : (x.gossipSubscriptions.objects i).isSome = true := by
    rw [← unsubscribeAll_evolves.wrapped i, hs]
    rfl
  obtain ⟨s', hs', hd⟩ := Roster.Sound.closeAll_closed
    (p := (x.gossipSubscriptions, x.gossipUnsubscribed)) h
    (GossipSubscriptionController.gossipOp_oneShot .unsubscribe)
    GossipSubscriptionController.gossipOp_unsubscribe_disposes hwrapped
  obtain rfl := Option.some.inj (hs'.symm.trans hs)
  exact hd

end Endpoint

namespace EndpointRun

/-! ## The invariant -/

/-- What holds in every run. -/
structure Valid (x : EndpointRun φ α) : Prop where
  downloads : x.endpoint.downloads.Valid
  subscriptions : x.endpoint.gossipSubscriptions.Sound GossipSubscriptionController.disposed
  subscriptionFresh : ∀ i, x.subscriptions ≤ i → x.endpoint.gossipSubscriptions.Fresh i
  streams : x.endpoint.streams.Valid
  listenerFresh : ∀ i, i ∉ x.listenerIds → x.endpoint.streams.1.Fresh i
  connectionFresh : ∀ i, i ∉ x.connectionIds → x.endpoint.streams.2.Fresh i
  connected : ∀ i ∈ x.connected, (x.endpoint.streams.2.objects i).isSome = true
  watch : x.endpoint.addressWatch.native.Accounted

/-- What the cascade leaves behind. -/
structure Closed (x : EndpointRun φ α) : Prop where
  waiting : ∀ k ∈ x.waiting, x.endpoint.downloads.Has TransferController.Cancelled k
  subscriptions : x.endpoint.gossipSubscriptions.AllClosed GossipSubscriptionController.disposed
  streams : x.endpoint.streams.Down
  connected : ∀ i ∈ x.connected, x.endpoint.streams.2.Closed ConnectionController.isClosed i
  watch : x.endpoint.addressWatch.native.Stopped

variable {x : EndpointRun φ α}

/-! ## Each step keeps it -/

section Steps

theorem Valid.afterDownloads [DecidableEq φ] (h : x.Valid) {e : DownloadEvent φ}
    (he : x.endpoint.downloads.enabled e = true) : (x.afterDownloads e).Valid :=
  { h with downloads := h.downloads.handle he }

theorem Closed.afterDownloads [DecidableEq φ] (h : x.Closed) (e : DownloadEvent φ) :
    (x.afterDownloads e).Closed :=
  { h with
    waiting := fun k hk => (h.waiting k hk).later (Downloads.handle_later e _)
      fun _ _ ht => ht.later }

theorem Valid.afterSubscribe (h : x.Valid) (capacity : Option Number) :
    (x.afterSubscribe capacity).Valid :=
  { h with
    subscriptions := h.subscriptions.adopt (h.subscriptionFresh _ le_rfl) rfl
    subscriptionFresh := fun i hi =>
      (h.subscriptionFresh i (Nat.le_of_succ_le hi)).adopt (Nat.ne_of_gt hi) _ }

theorem Valid.onSubscription (h : x.Valid) (i : ℕ) (e : GossipEvent) :
    ({ x with endpoint := x.endpoint.onSubscription i e } : EndpointRun φ α).Valid :=
  { h with
    subscriptions := (Endpoint.onSubscription_evolves i e).sound h.subscriptions
    subscriptionFresh := fun j hj =>
      (Endpoint.onSubscription_evolves i e).fresh (h.subscriptionFresh j hj) }

theorem Closed.onSubscription (h : x.Closed) (i : ℕ) (e : GossipEvent) :
    ({ x with endpoint := x.endpoint.onSubscription i e } : EndpointRun φ α).Closed :=
  { h with
    subscriptions := (Endpoint.onSubscription_evolves i e).allClosed h.subscriptions }

theorem Valid.afterListen (h : x.Valid) {listenerId : ℕ} (hnew : listenerId ∉ x.listenerIds)
    (alpn : String) (options : StreamOptions) : (x.afterListen alpn options listenerId).Valid :=
  { h with
    streams := h.streams.listen (h.listenerFresh listenerId hnew) alpn options
    listenerFresh := by
      intro i hi
      have hi' : i ∉ x.listenerIds ∧ i ≠ listenerId := by
        simpa [EndpointRun.afterListen, not_or] using hi
      exact (h.listenerFresh i hi'.1).adopt hi'.2 _ }

section Listener

variable {e : ListenerEvent} (hnew : ∀ i, e.accepts = some i → i ∉ x.connectionIds)
  (listenerId : ℕ) (wraps : Bool)

include hnew

theorem Valid.afterListener (h : x.Valid) : (x.afterListener listenerId e wraps).Valid := by
  have hfresh : ∀ i, e.accepts = some i → x.endpoint.streams.2.Fresh i :=
    fun i hi => h.connectionFresh i (hnew i hi)
  have hgrows := EndpointStreams.onListener_grows listenerId wraps hfresh
  refine { h with
    streams := h.streams.onListener listenerId wraps hfresh
    listenerFresh := fun i hi =>
      (EndpointStreams.onListener_evolves listenerId wraps).fresh (h.listenerFresh i hi)
    connectionFresh := fun i hi => ?_
    connected := fun i hi => hgrows.wrapped i (h.connected i hi) }
  have hi' : i ∉ x.connectionIds ∧ e.accepts ≠ some i := by
    simpa [EndpointRun.afterListener, not_or] using hi
  exact EndpointStreams.onListener_fresh listenerId wraps (h.connectionFresh i hi'.1) hi'.2

theorem Closed.afterListener (h : x.Closed) (hv : x.Valid) :
    (x.afterListener listenerId e wraps).Closed := by
  have hfresh : ∀ i, e.accepts = some i → x.endpoint.streams.2.Fresh i :=
    fun i hi => hv.connectionFresh i (hnew i hi)
  have hgrows := EndpointStreams.onListener_grows listenerId wraps hfresh
  exact { h with
    streams := h.streams.onListener listenerId wraps hfresh hv.streams
    connected := fun i hi => hgrows.staysClosed i (h.connected i hi) }

end Listener

section Connected

variable {connectionId : ℕ} (hnew : connectionId ∉ x.connectionIds) (init : ConnectionInit) (k : ℕ)

theorem not_mem_concat {i : ℕ} {ids : List ℕ} (h : i ∉ ids ++ [connectionId]) :
    i ∉ ids ∧ i ≠ connectionId := by
  simpa [not_or] using h

include hnew

theorem Valid.afterConnected (h : x.Valid) (wraps : Bool) :
    (x.afterConnected init k connectionId wraps).Valid := by
  have hfree := h.connectionFresh connectionId hnew
  cases wraps with
  | false =>
      exact { h with connectionFresh := fun i hi => h.connectionFresh i (not_mem_concat hi).1 }
  | true =>
      have hgrows : x.endpoint.streams.2.Grows ConnectionController.isClosed
          (x.endpoint.streams.2.adopt connectionId (.new init)) := .adopt hfree.unwrapped _
      refine { h with
        streams := h.streams.grow hgrows (h.streams.connections.adopt hfree rfl)
        connectionFresh := fun i hi =>
          (h.connectionFresh i (not_mem_concat hi).1).adopt (not_mem_concat hi).2 _
        connected := fun i hi => ?_ }
      rcases List.mem_append.mp hi with hi | hi
      · exact hgrows.wrapped i (h.connected i hi)
      · obtain rfl := List.mem_singleton.mp hi
        simp [EndpointRun.afterConnected, adoptStreamConnection, Roster.adopt]

omit hnew in
/-- A connection that cannot be wrapped is not handed out. -/
theorem Closed.afterConnected (h : x.Closed) :
    (x.afterConnected init k connectionId false).Closed :=
  { h with }

end Connected

theorem Valid.afterConnection (h : x.Valid) (i : ℕ) (e : ConnectionEvent) :
    (x.afterConnection i e).Valid := by
  have hevolves := EndpointStreams.onConnection_evolves (p := x.endpoint.streams) i e
  exact { h with
    streams := h.streams.grow hevolves.grows (hevolves.sound h.streams.connections)
    connectionFresh := fun j hj => hevolves.fresh (h.connectionFresh j hj)
    connected := fun j hj => hevolves.grows.wrapped j (h.connected j hj) }

theorem Closed.afterConnection (h : x.Closed) (i : ℕ) (e : ConnectionEvent) :
    (x.afterConnection i e).Closed := by
  have hevolves := EndpointStreams.onConnection_evolves (p := x.endpoint.streams) i e
  exact { h with
    streams := h.streams.grow hevolves.grows
    connected := fun j hj => hevolves.staysClosed j (h.connected j hj) }

theorem Valid.afterAddress [DecidableEq φ] (h : x.Valid) (e : AddressEvent φ α)
    (start : Except IrohError ℕ) : (x.afterAddress e start).Valid :=
  { h with watch := AddressWatch.handle_keeps (AddressWatch.hooks_accounted start) e h.watch }

theorem Closed.afterAddress [DecidableEq φ] (h : x.Closed) (e : AddressEvent φ α)
    (error : IrohError) : (x.afterAddress e (.error error)).Closed :=
  { h with watch := AddressWatch.handle_keeps (AddressWatch.hooks_stopped error) e h.watch }

/-! ## The cascade -/

theorem Valid.afterClosed (h : x.Valid) (error : Option IrohError) :
    (x.afterClosed error).Valid where
  downloads := h.downloads.cancelQueued
  subscriptions := Endpoint.unsubscribeAll_evolves.sound h.subscriptions
  subscriptionFresh i hi := Endpoint.unsubscribeAll_evolves.fresh (h.subscriptionFresh i hi)
  streams := h.streams.closeAll
  listenerFresh i hi := EndpointStreams.closeListeners_evolves.fresh (h.listenerFresh i hi)
  connectionFresh i hi := h.streams.closeAll_evolves.fresh (h.connectionFresh i hi)
  connected i hi := h.streams.closeAll_evolves.grows.wrapped i (h.connected i hi)
  watch := h.watch.stop.accounted

/-- The cascade leaves nothing running. -/
theorem Valid.closed (h : x.Valid) (error : Option IrohError) : (x.afterClosed error).Closed where
  waiting _ hk := h.downloads.cancelQueued_cancelled hk
  subscriptions := Endpoint.unsubscribeAll_allClosed
    (x := { x.endpoint with downloads := x.endpoint.downloads.cancelQueued }) h.subscriptions
  streams := h.streams.closeAll_down
  connected i hi := h.streams.closeAll_closed (h.connected i hi)
  watch := h.watch.stop

end Steps

/-! ## Runs -/

/-- No promise of `streamConnect` resolves after the native close settled, with a
connection that can be wrapped. -/
def Timely (x : EndpointRun φ α) : EndpointAction φ α → Prop
  | .connected _ _ true => x.endpoint.closePromise.isSettled = false
  | _ => True

section Runs

variable [DecidableEq φ] {y : EndpointRun φ α} {a : EndpointAction φ α}

theorem Valid.moves (h : x.Valid) (hm : x.Moves a y) : y.Valid := by
  cases hm with
  | downloads he => exact h.afterDownloads he
  | subscribe hknown capacity => exact h.afterSubscribe capacity
  | subscription i e => exact h.onSubscription i e
  | listen hknown alpn options hnew => exact h.afterListen hnew alpn options
  | listener listenerId wraps hnew => exact h.afterListener hnew listenerId wraps
  | connect init => exact { h with }
  | connected hc hknown hnew wraps => exact h.afterConnected hnew _ _ wraps
  | connectFailed hk => exact { h with }
  | connection connectionId e => exact h.afterConnection connectionId e
  | started hknown e start => exact h.afterAddress e start
  | refused e error => exact h.afterAddress e (.error error)
  | close hknown => exact { h with }
  | closeAgain hknown => exact h
  | closed hpending error => exact h.afterClosed error

omit [DecidableEq φ] in
/-- The native side does not know an endpoint that is closed. -/
theorem known_of_settled (h : x.endpoint.closePromise.isSettled = true) : x.known = false := by
  unfold known
  cases hp : x.endpoint.closePromise with
  | null => rw [hp] at h; cases h
  | pending => rfl
  | settled error => rfl

/-- Once the endpoint is closed, a timely step leaves it so. -/
theorem Closed.moves (h : x.Closed) (hv : x.Valid)
    (hclosed : x.endpoint.closePromise.isSettled = true) (ha : x.Timely a) (hm : x.Moves a y) :
    y.Closed := by
  have hunknown := known_of_settled hclosed
  cases hm with
  | downloads he => exact h.afterDownloads _
  | subscribe hknown capacity => rw [hunknown] at hknown; cases hknown
  | subscription i e => exact h.onSubscription i e
  | listen hknown alpn options hnew => rw [hunknown] at hknown; cases hknown
  | listener listenerId wraps hnew => exact h.afterListener hnew listenerId wraps hv
  | connect init => exact { h with }
  | connected hc hknown hnew wraps =>
      cases wraps with
      | true =>
          have hopen : x.endpoint.closePromise.isSettled = false := ha
          rw [hclosed] at hopen
          cases hopen
      | false => exact h.afterConnected _ _
  | connectFailed hk => exact { h with }
  | connection connectionId e => exact h.afterConnection connectionId e
  | started hknown e start => rw [hunknown] at hknown; cases hknown
  | refused e error => exact h.afterAddress e error
  | close hknown => rw [hunknown] at hknown; cases hknown
  | closeAgain hknown => exact h
  | closed hpending error => rw [hpending] at hclosed; cases hclosed

/-- What a step does to `closePromise`. -/
theorem Moves.closePromise (hm : x.Moves a y) :
    y.endpoint.closePromise = x.endpoint.closePromise ∨ y.endpoint.closePromise = .pending ∨
      ∃ error, y = x.afterClosed error := by
  cases hm with
  | closed hpending error => exact Or.inr (Or.inr ⟨error, rfl⟩)
  | close hknown => exact Or.inr (Or.inl rfl)
  | connected hc hknown hnew wraps =>
      cases wraps with
      | false => exact Or.inl rfl
      | true => exact Or.inl rfl
  | _ => exact Or.inl rfl

/-- Only the settlement of the native close closes the endpoint. -/
theorem closed_of_moves (hopen : x.endpoint.closePromise.isSettled = false)
    (hclosed : y.endpoint.closePromise.isSettled = true) (hm : x.Moves a y) :
    ∃ error, y = x.afterClosed error := by
  rcases hm.closePromise with hsame | hpending | hafter
  · rw [hsame, hopen] at hclosed
    cases hclosed
  · rw [hpending] at hclosed
    cases hclosed
  · exact hafter

omit [DecidableEq φ] in
theorem valid_new (maxConcurrentDownloads : Option Number) :
    ({ endpoint := .new maxConcurrentDownloads } : EndpointRun φ α).Valid where
  downloads := Downloads.valid_new _
  subscriptions := .empty
  subscriptionFresh i _ := .empty i
  streams := EndpointStreams.valid_new
  listenerFresh i _ := .empty i
  connectionFresh i _ := .empty i
  connected _ := nofun
  watch := rfl

/-- Every run keeps the invariant, and once the endpoint is closed, a run whose steps
are timely leaves it so. -/
theorem closed_invariant (maxConcurrentDownloads : Option Number) :
    (endpointMachine φ α maxConcurrentDownloads).Invariant Timely
      (fun x => x.Valid ∧ (x.endpoint.closePromise.isSettled = true → x.Closed)) where
  init x hx := by
    have hnew : x = { endpoint := .new maxConcurrentDownloads } := hx
    subst hnew
    exact ⟨valid_new maxConcurrentDownloads, nofun⟩
  step x a y hx ha hy := by
    obtain ⟨hvalid, hclosed⟩ := hx
    have hm := step_moves hy
    refine ⟨hvalid.moves hm, fun hsettled => ?_⟩
    cases hx : x.endpoint.closePromise.isSettled with
    | true => exact (hclosed hx).moves hvalid hx ha hm
    | false =>
        obtain ⟨error, rfl⟩ := closed_of_moves hx hsettled hm
        exact hvalid.closed error

end Runs

/-! ## The teardown is complete -/

/-- No native promise is pending. -/
def Quiet (x : EndpointRun φ α) : Prop :=
  x.connecting = [] ∧ x.endpoint.downloads.running = []

/-- A connection that `connect` resolved with, or that a listener delivered. -/
def Handed (x : EndpointRun φ α) (i : ℕ) : Prop :=
  i ∈ x.connected ∨
    ∃ j l, x.endpoint.streams.1.objects j = some l ∧ i ∈ l.controller.accepted.delivered

/-- Nothing of the endpoint is left running. -/
structure TornDown (x : EndpointRun φ α) : Prop where
  transfers : ∀ k ∈ x.waiting, x.endpoint.downloads.Has TransferController.Cancelled k
  subscriptions : x.endpoint.gossipSubscriptions.AllClosed GossipSubscriptionController.disposed
  listeners : x.endpoint.streams.1.AllClosed EndpointListener.disposed
  watch : x.endpoint.addressWatch.native.Stopped
  connections : ∀ i, x.Handed i → x.endpoint.streams.2.Closed ConnectionController.isClosed i

/-- Once `close()` has settled and no native promise is pending, nothing is left. -/
def TeardownComplete (x : EndpointRun φ α) : Prop :=
  x.endpoint.closePromise.isSettled = true → x.Quiet → x.TornDown

theorem Closed.tornDown {x : EndpointRun φ α} (h : x.Closed) : x.TornDown where
  transfers := h.waiting
  subscriptions := h.subscriptions
  listeners := h.streams.listeners
  watch := h.watch
  connections i hi := by
    rcases hi with hconnected | ⟨j, l, hl, hdelivered⟩
    · exact h.connected i hconnected
    · exact h.streams.held j l hl i (List.mem_append_left _ hdelivered)

theorem endpoint_torn_down [DecidableEq φ] (maxConcurrentDownloads : Option Number)
    {x : EndpointRun φ α}
    (hx : (endpointMachine φ α maxConcurrentDownloads).Reachable Timely x) :
    x.TeardownComplete := by
  intro hsettled hquiet
  obtain ⟨-, hclosed⟩ := (closed_invariant maxConcurrentDownloads).reachable hx
  exact (hclosed hsettled).tornDown

instance decidableTimely (x : EndpointRun φ α) : (a : EndpointAction φ α) → Decidable (x.Timely a)
  | .connected _ _ true => inferInstanceAs (Decidable (_ = false))
  | .connected _ _ false => .isTrue trivial
  | .downloads _ => .isTrue trivial
  | .subscribe _ => .isTrue trivial
  | .subscription _ _ => .isTrue trivial
  | .listen _ _ _ => .isTrue trivial
  | .listener _ _ _ => .isTrue trivial
  | .connect _ => .isTrue trivial
  | .connectFailed _ => .isTrue trivial
  | .connection _ _ => .isTrue trivial
  | .address _ _ => .isTrue trivial
  | .close => .isTrue trivial
  | .closed _ => .isTrue trivial

/-- An endpoint that downloads one blob at a time. -/
abbrev gated : Machine (EndpointRun Unit Unit) (EndpointAction Unit Unit) :=
  endpointMachine Unit Unit (some (.ofNat 1))

def created : EndpointRun Unit Unit := { endpoint := .new (some (.ofNat 1)) }

/-- Where a run of that endpoint ends. -/
def ran (actions : List (EndpointAction Unit Unit)) : EndpointRun Unit Unit :=
  (gated.run created actions).getD created

/-- Two downloads, a subscription, a listener that delivers a connection, and an address
watch.  A connection is dialled that resolves while the endpoint is being closed. -/
def everyUse : List (EndpointAction Unit Unit) :=
  [.downloads (.download false fun _ => none), .downloads (.download false fun _ => none),
    .subscribe none, .listen "alpn" {} 3, .connect ⟨"peer", "alpn", .framed, none⟩,
    .listener 3 .next true, .listener 3 (.onConnection "7 peer") true,
    .address (.consumer (.listen ())) (.ok 5), .close, .connected 0 9 true, .closed none,
    .downloads (.transfer 0 (.downloaded (some cancelledBeforeStart)))]

theorem endpoint_torn_down_every_use :
    (ran everyUse).waiting = [1] ∧ (ran everyUse).connected = [9] ∧ (ran everyUse).TornDown := by
  refine ⟨by decide, by decide, ?_⟩
  exact endpoint_torn_down (some (.ofNat 1))
    (Machine.reachable_of_guarded everyUse (s := created) rfl (by decide) (by rfl)) (by decide)
    ⟨by decide, by decide⟩

/-- A connection is dialled that resolves after the native close settled. -/
def connectedLate : List (EndpointAction Unit Unit) :=
  [.connect ⟨"peer", "alpn", .framed, none⟩, .close, .closed none, .connected 0 9 true]

/-- It is handed to the host, and it is left open. -/
theorem connected_late_stays_open :
    gated.Reachable Any (ran connectedLate) ∧ ¬ (ran connectedLate).TeardownComplete := by
  refine ⟨Machine.reachable_of_run connectedLate (s := created) rfl (by rfl), fun hcomplete => ?_⟩
  have htorn := hcomplete (by decide) ⟨by decide, by decide⟩
  obtain ⟨c, hc, hclosed⟩ := htorn.connections 9 (Or.inl (by decide))
  have hopen : some (ConnectionController.new ⟨"peer", "alpn", .framed, none⟩) = some c := hc
  obtain rfl := Option.some.inj hopen
  cases hclosed

end EndpointRun

end Iroh
