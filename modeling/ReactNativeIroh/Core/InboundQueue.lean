import ReactNativeIroh.Core.Registry
import ReactNativeIroh.Lib.Machine

/-!
# The inbound queue of an ALPN

The router hands the connections it accepts on a declared ALPN to a channel of bounded
capacity.  `stream_listen` locks the receiver and spawns a task that holds the lock, takes
connections off the channel, registers them and passes them to `on_connection`.
`stop_stream_listen` aborts the task.  The lock is released when the task has ended or is
dropped.

The receiver is shared by the endpoint, by the calls of `stream_listen` that have looked it
up, and by the task that holds the lock.  When the last of them lets it go, the
connections that wait are dropped with it.

The machine is that of one ALPN of one endpoint.  Connections are numbered in the order in
which the router passed them on.  The registries of listeners and connections are shared with
the rest of the process, whose entries are `none` here.
-/

namespace Iroh.Core

open Transition

/-- `INBOUND_BACKLOG`. -/
def INBOUND_BACKLOG : ℕ := 64

/-- Why the channel refuses a connection. -/
inductive TrySendError where
  | full
  | closed
deriving DecidableEq

/-- Where the task of a listener is. -/
inductive ListenerPhase where
  | waiting
  | taken (conn : ℕ)
  | registered (conn handle : ℕ)
  /-- The channel has ended, and `on_close` is still to be called. -/
  | ending
  /-- `on_close` was called. -/
  | closed
  | ended
  | dropped
deriving DecidableEq

namespace ListenerPhase

/-- The task owns the lock. -/
def holds : ListenerPhase → Bool
  | .ended | .dropped => false
  | _ => true

/-- The connection the task has taken and has not passed on yet, and its handle. -/
def carried : ListenerPhase → Option (ℕ × Option ℕ)
  | .taken conn => some (conn, none)
  | .registered conn handle => some (conn, some handle)
  | _ => none

end ListenerPhase

structure Listener where
  phase : ListenerPhase := .waiting
  polled : Bool := false
  aborted : Bool := false
deriving DecidableEq

/-- Where a call of `stream_listen` is. -/
inductive ListenPhase where
  /-- It has looked the queue up. -/
  | holding
  /-- It has locked the receiver and spawned the task of this listener. -/
  | spawned (listener : ℕ)
  | returned (result : Except IrohError ℕ)

/-- A connection that was passed to `on_connection`, by whom and with which handle. -/
structure Delivered where
  listener : ℕ
  conn : ℕ
  handle : ℕ
deriving DecidableEq

structure InboundRun where
  isOpen : Bool := true
  /-- Someone has a reference to the state of the endpoint. -/
  stateHeld : Bool := true
  /-- The router has the handler, and the handler the sender. -/
  routed : Bool := true
  accepted : ℕ := 0
  queue : List ℕ := []
  lock : Option ℕ := none
  listeners : ℕ → Option Listener := fun _ => none
  listenerCount : ℕ := 0
  calls : ℕ → Option ListenPhase := fun _ => none
  callCount : ℕ := 0
  registry : Registry (Option ℕ) := .new
  connections : Registry (Option ℕ) := .new
  /-- The handles of the connections that came from elsewhere. -/
  others : List ℕ := []
  handed : List Delivered := []
  closes : List ℕ := []
  dropped : List ℕ := []
  refused : List (ℕ × TrySendError) := []

/-- What a worker does for the task of a listener. -/
inductive ListenerAction where
  | poll
  | yield
  | drop
  | recv
  | insert
  | deliver
  | onClose
  | finish

inductive InboundAction where
  | accept
  | listen
  | tryLock (c : ℕ)
  | register (c : ℕ)
  | stop (handle : ℕ)
  | task (l : ℕ) (a : ListenerAction)
  | close
  /-- The router drops the handler. -/
  | shutdown
  /-- The last reference to the state of the endpoint is dropped. -/
  | release
  /-- A connection is registered elsewhere. -/
  | connect
  | disconnect (handle : ℕ)
  /-- A listener is registered elsewhere. -/
  | listenOther

namespace InboundRun

/-- A call of `stream_listen` has looked the queue up, and not locked it yet. -/
def isLookedUp (x : InboundRun) : Bool :=
  (List.range x.callCount).any fun c =>
    match x.calls c with
    | some .holding => true
    | _ => false

/-- Someone has a reference to the receiver. -/
def isReachable (x : InboundRun) : Bool := x.stateHeld || x.lock.isSome || x.isLookedUp

/-- Drop the receiver, if no one has a reference to it. -/
def reap (x : InboundRun) : InboundRun :=
  if x.isReachable then x else { x with queue := [], dropped := x.dropped ++ x.queue }

def putListener (x : InboundRun) (l : ℕ) (t : Listener) : InboundRun :=
  { x with listeners := Function.update x.listeners l (some t) }

def putCall (x : InboundRun) (c : ℕ) (p : ListenPhase) : InboundRun :=
  { x with calls := Function.update x.calls c (some p) }

/-- `InboundAlpnHandler::accept`. -/
def accept (x : InboundRun) : InboundRun :=
  if x.isReachable = false then
    { x with accepted := x.accepted + 1, refused := x.refused ++ [(x.accepted, .closed)] }
  else if x.queue.length < INBOUND_BACKLOG then
    { x with accepted := x.accepted + 1, queue := x.queue ++ [x.accepted] }
  else { x with accepted := x.accepted + 1, refused := x.refused ++ [(x.accepted, .full)] }

/-- `stream_listen` looks the endpoint and the queue up. -/
def listen (endpoint : ℕ) (x : InboundRun) : InboundRun :=
  { x.putCall x.callCount
      (if x.isOpen then .holding else .returned (.error (.invalidHandle (.ofNat endpoint)))) with
    callCount := x.callCount + 1 }

/-- It locks the receiver and spawns its task, or finds the receiver locked. -/
def tryLock (alpn : String) (x : InboundRun) (c : ℕ) : InboundRun :=
  match x.lock with
  | none =>
      { (x.putListener x.listenerCount {}).putCall c (.spawned x.listenerCount) with
        lock := some x.listenerCount
        listenerCount := x.listenerCount + 1 }
  | some _ =>
      (x.putCall c (.returned (.error (.streamListen ("already listening on alpn " ++ alpn))))).reap

/-- `stop_stream_listen`.  Removing a listener aborts its task. -/
def stop (x : InboundRun) (handle : ℕ) : InboundRun :=
  match x.registry.items handle with
  | some (some l) =>
      match x.listeners l with
      | some t =>
          { x.putListener l { t with aborted := true } with registry := x.registry.remove handle }
      | none => { x with registry := x.registry.remove handle }
  | some none => { x with registry := x.registry.remove handle }
  | none => x

/-- The task is gone, and with it the lock. -/
def unlock (x : InboundRun) (l : ℕ) (t : Listener) : InboundRun :=
  { x.putListener l t with lock := none }.reap

def taskStep (x : InboundRun) (l : ℕ) (t : Listener) : ListenerAction → Option InboundRun
  | .poll =>
      if t.phase.holds ∧ t.polled = false ∧ t.aborted = false then
        some (x.putListener l { t with polled := true })
      else none
  | .yield =>
      match t.phase, t.polled with
      | .waiting, true => some (x.putListener l { t with polled := false })
      | _, _ => none
  | .drop =>
      match t.phase, t.polled, t.aborted with
      | .waiting, false, true => some (x.unlock l { t with phase := .dropped })
      | _, _, _ => none
  | .recv =>
      match t.phase, t.polled, x.queue with
      | .waiting, true, conn :: queue =>
          some { x.putListener l { t with phase := .taken conn } with queue }
      | .waiting, true, [] =>
          if x.routed then none else some (x.putListener l { t with phase := .ending })
      | _, _, _ => none
  | .insert =>
      match t.phase with
      | .taken conn =>
          some { x.putListener l { t with phase := .registered conn x.connections.next } with
            connections := x.connections.insert (some conn) }
      | _ => none
  | .deliver =>
      match t.phase with
      | .registered conn handle =>
          some { x.putListener l { t with phase := .waiting } with
            handed := x.handed ++ [⟨l, conn, handle⟩] }
      | _ => none
  | .onClose =>
      match t.phase with
      | .ending =>
          some { x.putListener l { t with phase := .closed } with closes := x.closes ++ [l] }
      | _ => none
  | .finish =>
      match t.phase with
      | .closed => some (x.unlock l { t with phase := .ended, polled := false })
      | _ => none

def step (endpoint : ℕ) (alpn : String) (x : InboundRun) : InboundAction → Option InboundRun
  | .accept => if x.routed then some x.accept else none
  | .listen => some (x.listen endpoint)
  | .tryLock c =>
      match x.calls c with
      | some .holding => some (x.tryLock alpn c)
      | _ => none
  | .register c =>
      match x.calls c with
      | some (.spawned l) =>
          some { x.putCall c (.returned (.ok x.registry.next)) with
            registry := x.registry.insert (some l) }
      | _ => none
  | .stop handle => some (x.stop handle)
  | .task l a => (x.listeners l).bind fun t => x.taskStep l t a
  | .close => some { x with isOpen := false }
  | .shutdown => if x.isOpen then none else some { x with routed := false }
  | .release => if x.isOpen then none else some { x with stateHeld := false }.reap
  | .connect =>
      some { x with
        connections := x.connections.insert none, others := x.others ++ [x.connections.next] }
  | .disconnect handle => some { x with connections := x.connections.remove handle }
  | .listenOther => some { x with registry := x.registry.insert none }

end InboundRun

/-- The machine of one ALPN of one endpoint.  The name is as its error message quotes it. -/
def inboundMachine (endpoint : ℕ) (alpn : String) : Machine InboundRun InboundAction where
  init x := x = {}
  step := InboundRun.step endpoint alpn

end Iroh.Core
