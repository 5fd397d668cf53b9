import ReactNativeIroh.Ts.AddressWatch
import ReactNativeIroh.Ts.Downloads
import ReactNativeIroh.Ts.EndpointStreams
import ReactNativeIroh.Ts.Gossip

/-!
# Endpoints

`Endpoint` holds the downloads, the gossip subscriptions, the stream listeners and
connections, and the address watch.  When the native close settles, with success or
not, `cancelQueued` tears all of them down, once.

The native side forgets the endpoint when `closeEndpoint` is called, before its
promise settles.  From then on `gossipSubscribe`, `streamListen` and `watchAddr` throw
and `streamConnect` rejects.  A promise that `streamConnect` made before stays pending
and may still resolve.  A call that throws changes nothing, and is no step.

`EndpointRun` is the machine of an endpoint.  Beside the endpoint it keeps what the
native side has handed out, the ids `connect` resolved with, and the transfers that
waited in the queue when the native close settled.
-/

namespace Iroh

open Ownership Transition

/-- The field `closePromise`, and what the promise was settled with. -/
inductive ClosePromise where
  | null
  | pending
  | settled (error : Option IrohError)
deriving DecidableEq

namespace ClosePromise

def isNull : ClosePromise → Bool
  | null => true
  | _ => false

def isSettled : ClosePromise → Bool
  | settled _ => true
  | _ => false

end ClosePromise

structure Endpoint (φ α : Type*) where
  downloads : Downloads φ
  gossipSubscriptions : Roster ℕ GossipSubscriptionController := {}
  gossipUnsubscribed : List ℕ := []
  streams : EndpointStreams := ({}, {})
  addressWatch : AddressWatch φ α := {}
  closePromise : ClosePromise := .null

namespace Endpoint

variable {φ α : Type*}

/-- The constructor, with the option `maxConcurrentDownloads`. -/
def new (maxConcurrentDownloads : Option Number) : Endpoint φ α :=
  { downloads := { maxConcurrentDownloads := .ofOption maxConcurrentDownloads } }

def onSubscription (i : ℕ) (e : GossipEvent) (x : Endpoint φ α) : Endpoint φ α :=
  let (gossipSubscriptions, gossipUnsubscribed) :=
    Roster.apply i (GossipSubscriptionController.gossipOp e i)
      (x.gossipSubscriptions, x.gossipUnsubscribed)
  { x with gossipSubscriptions, gossipUnsubscribed }

/-- Unsubscribe each subscription of the snapshot. -/
def unsubscribeAll (x : Endpoint φ α) : Endpoint φ α :=
  let (gossipSubscriptions, gossipUnsubscribed) :=
    Roster.applyAll (GossipSubscriptionController.gossipOp .unsubscribe)
      x.gossipSubscriptions.ledger.live (x.gossipSubscriptions, x.gossipUnsubscribed)
  { x with gossipSubscriptions, gossipUnsubscribed }

/-- The cascade of `close()`. -/
def cancelQueued (x : Endpoint φ α) : Endpoint φ α :=
  let x := { x with downloads := x.downloads.cancelQueued }
  let x := x.unsubscribeAll
  { x with streams := x.streams.closeAll, addressWatch := x.addressWatch.shut }

end Endpoint

/-- A pending promise of `streamConnect`, and whether the native side knew the endpoint
when it was called. -/
structure PendingConnect where
  init : ConnectionInit
  known : Bool

/-- An endpoint, and the history of one run. -/
structure EndpointRun (φ α : Type*) where
  endpoint : Endpoint φ α
  connecting : List PendingConnect := []
  subscriptions : ℕ := 0
  listenerIds : List ℕ := []
  connectionIds : List ℕ := []
  connected : List ℕ := []
  waiting : List ℕ := []

/-- What can happen to an endpoint.  `connected` and `connectFailed` settle a pending
promise of `streamConnect`, `connected` with the rest of that function, where `wraps`
says whether the connection could be subscribed to.  `closed` settles the native
promise of `close()`. -/
inductive EndpointAction (φ α : Type*) where
  | downloads (e : DownloadEvent φ)
  | subscribe (capacity : Option Number)
  | subscription (i : ℕ) (e : GossipEvent)
  | listen (alpn : String) (options : StreamOptions) (listenerId : ℕ)
  | listener (listenerId : ℕ) (e : ListenerEvent) (wraps : Bool)
  | connect (init : ConnectionInit)
  | connected (k connectionId : ℕ) (wraps : Bool)
  | connectFailed (k : ℕ)
  | connection (connectionId : ℕ) (e : ConnectionEvent)
  | address (e : AddressEvent φ α) (start : Except IrohError ℕ)
  | close
  | closed (error : Option IrohError)

namespace EndpointRun

variable {φ α : Type*}

/-- The native side knows the endpoint. -/
def known (x : EndpointRun φ α) : Bool := x.endpoint.closePromise.isNull

def afterDownloads [DecidableEq φ] (x : EndpointRun φ α) (e : DownloadEvent φ) :
    EndpointRun φ α :=
  { x with endpoint := { x.endpoint with downloads := Downloads.handle e x.endpoint.downloads } }

def afterSubscribe (x : EndpointRun φ α) (capacity : Option Number) : EndpointRun φ α :=
  { x with
    endpoint := { x.endpoint with
      gossipSubscriptions := x.endpoint.gossipSubscriptions.adopt x.subscriptions (.new capacity) }
    subscriptions := x.subscriptions + 1 }

def afterListen (x : EndpointRun φ α) (alpn : String) (options : StreamOptions)
    (listenerId : ℕ) : EndpointRun φ α :=
  { x with
    endpoint := { x.endpoint with streams := x.endpoint.streams.listen alpn options listenerId }
    listenerIds := x.listenerIds ++ [listenerId] }

def afterListener (x : EndpointRun φ α) (listenerId : ℕ) (e : ListenerEvent) (wraps : Bool) :
    EndpointRun φ α :=
  { x with
    endpoint := { x.endpoint with streams := x.endpoint.streams.onListener listenerId e wraps }
    connectionIds := x.connectionIds ++ e.accepts.toList }

/-- `connectStreams` goes on with the id the native promise resolved with.  When the
connection cannot be wrapped it rejects. -/
def afterConnected (x : EndpointRun φ α) (init : ConnectionInit) (k connectionId : ℕ)
    (wraps : Bool) : EndpointRun φ α :=
  let x := { x with
    connecting := x.connecting.eraseIdx k
    connectionIds := x.connectionIds ++ [connectionId] }
  match adoptStreamConnection connectionId init wraps x.endpoint.streams.2 with
  | none => x
  | some connections =>
      { x with
        endpoint := { x.endpoint with streams := (x.endpoint.streams.1, connections) }
        connected := x.connected ++ [connectionId] }

def afterConnection (x : EndpointRun φ α) (connectionId : ℕ) (e : ConnectionEvent) :
    EndpointRun φ α :=
  { x with endpoint := { x.endpoint with
      streams := x.endpoint.streams.onConnection connectionId e } }

def afterAddress [DecidableEq φ] (x : EndpointRun φ α) (e : AddressEvent φ α)
    (start : Except IrohError ℕ) : EndpointRun φ α :=
  { x with endpoint := { x.endpoint with
      addressWatch := AddressWatch.handle start e x.endpoint.addressWatch } }

/-- The native close has settled. -/
def afterClosed (x : EndpointRun φ α) (error : Option IrohError) : EndpointRun φ α :=
  { x with
    endpoint := { x.endpoint.cancelQueued with closePromise := .settled error }
    waiting := x.endpoint.downloads.downloadQueue }

/-- The native side hands out an id once, settles a promise once, and starts nothing
for an endpoint it does not know. -/
def step [DecidableEq φ] (x : EndpointRun φ α) : EndpointAction φ α → Option (EndpointRun φ α)
  | .downloads e => if x.endpoint.downloads.enabled e then some (x.afterDownloads e) else none
  | .subscribe capacity => if x.known then some (x.afterSubscribe capacity) else none
  | .subscription i e => some { x with endpoint := x.endpoint.onSubscription i e }
  | .listen alpn options listenerId =>
      if x.known ∧ listenerId ∉ x.listenerIds then some (x.afterListen alpn options listenerId)
      else none
  | .listener listenerId e wraps =>
      if e.isSent ∧ e.accepts.all fun i => decide (i ∉ x.connectionIds) then
        some (x.afterListener listenerId e wraps)
      else none
  | .connect init =>
      some { x with connecting := x.connecting ++ [{ init := init, known := x.known }] }
  | .connected k connectionId wraps =>
      match x.connecting[k]? with
      | none => none
      | some c =>
          if c.known ∧ connectionId ∉ x.connectionIds then
            some (x.afterConnected c.init k connectionId wraps)
          else none
  | .connectFailed k =>
      if k < x.connecting.length then some { x with connecting := x.connecting.eraseIdx k }
      else none
  | .connection connectionId e => some (x.afterConnection connectionId e)
  | .address e start =>
      if x.known ∨ start.isOk = false then some (x.afterAddress e start) else none
  | .close =>
      if x.known then some { x with endpoint := { x.endpoint with closePromise := .pending } }
      else some x
  | .closed error =>
      if x.endpoint.closePromise = .pending then some (x.afterClosed error) else none

/-- Everything a step can do, with what it needs. -/
inductive Moves [DecidableEq φ] (x : EndpointRun φ α) :
    EndpointAction φ α → EndpointRun φ α → Prop where
  | downloads {e} (he : x.endpoint.downloads.enabled e = true) :
      Moves x (.downloads e) (x.afterDownloads e)
  | subscribe (hknown : x.known = true) (capacity) :
      Moves x (.subscribe capacity) (x.afterSubscribe capacity)
  | subscription (i e) :
      Moves x (.subscription i e) { x with endpoint := x.endpoint.onSubscription i e }
  | listen (hknown : x.known = true) (alpn options) {listenerId}
      (hnew : listenerId ∉ x.listenerIds) :
      Moves x (.listen alpn options listenerId) (x.afterListen alpn options listenerId)
  | listener (listenerId wraps) {e}
      (hnew : ∀ i, ListenerEvent.accepts e = some i → i ∉ x.connectionIds) :
      Moves x (.listener listenerId e wraps) (x.afterListener listenerId e wraps)
  | connect (init) :
      Moves x (.connect init)
        { x with connecting := x.connecting ++ [{ init := init, known := x.known }] }
  | connected {k c connectionId} (hc : x.connecting[k]? = some c) (hknown : c.known = true)
      (hnew : connectionId ∉ x.connectionIds) (wraps) :
      Moves x (.connected k connectionId wraps) (x.afterConnected c.init k connectionId wraps)
  | connectFailed {k} (hk : k < x.connecting.length) :
      Moves x (.connectFailed k) { x with connecting := x.connecting.eraseIdx k }
  | connection (connectionId e) :
      Moves x (.connection connectionId e) (x.afterConnection connectionId e)
  | started (hknown : x.known = true) (e start) :
      Moves x (.address e start) (x.afterAddress e start)
  | refused (e error) : Moves x (.address e (.error error)) (x.afterAddress e (.error error))
  | close (hknown : x.known = true) :
      Moves x .close { x with endpoint := { x.endpoint with closePromise := .pending } }
  | closeAgain (hknown : x.known = false) : Moves x .close x
  | closed (hpending : x.endpoint.closePromise = .pending) (error) :
      Moves x (.closed error) (x.afterClosed error)

theorem step_moves [DecidableEq φ] {x y : EndpointRun φ α} {a : EndpointAction φ α}
    (h : x.step a = some y) : x.Moves a y := by
  cases a with
  | downloads e =>
      obtain ⟨he, ⟨⟩⟩ := Option.ite_none_right_eq_some.mp h
      exact .downloads he
  | subscribe capacity =>
      obtain ⟨hknown, ⟨⟩⟩ := Option.ite_none_right_eq_some.mp h
      exact .subscribe hknown capacity
  | subscription i e =>
      obtain rfl := Option.some.inj h
      exact .subscription i e
  | listen alpn options listenerId =>
      obtain ⟨⟨hknown, hnew⟩, ⟨⟩⟩ := Option.ite_none_right_eq_some.mp h
      exact .listen hknown alpn options hnew
  | listener listenerId e wraps =>
      obtain ⟨hnew, ⟨⟩⟩ := Option.ite_none_right_eq_some.mp h
      exact .listener listenerId wraps fun i hi => by simpa [hi] using hnew.2
  | connect init =>
      obtain rfl := Option.some.inj h
      exact .connect init
  | connected k connectionId wraps =>
      simp only [step] at h
      split at h
      · cases h
      · next c hc =>
          obtain ⟨⟨hknown, hnew⟩, ⟨⟩⟩ := Option.ite_none_right_eq_some.mp h
          exact .connected hc hknown hnew wraps
  | connectFailed k =>
      obtain ⟨hk, ⟨⟩⟩ := Option.ite_none_right_eq_some.mp h
      exact .connectFailed hk
  | connection connectionId e =>
      obtain rfl := Option.some.inj h
      exact .connection connectionId e
  | address e start =>
      obtain ⟨hstart, ⟨⟩⟩ := Option.ite_none_right_eq_some.mp h
      cases start with
      | ok watchId => exact .started (hstart.resolve_right nofun) e _
      | error error => exact .refused e error
  | close =>
      simp only [step] at h
      split at h
      · next hknown =>
          obtain rfl := Option.some.inj h
          exact .close hknown
      · next hknown =>
          obtain rfl := Option.some.inj h
          exact .closeAgain (by simpa using hknown)
  | closed error =>
      obtain ⟨hpending, ⟨⟩⟩ := Option.ite_none_right_eq_some.mp h
      exact .closed hpending error

end EndpointRun

/-- The machine of an endpoint that was just created. -/
def endpointMachine (φ α : Type*) [DecidableEq φ] (maxConcurrentDownloads : Option Number) :
    Machine (EndpointRun φ α) (EndpointAction φ α) where
  init x := x = { endpoint := .new maxConcurrentDownloads }
  step := EndpointRun.step

end Iroh
