import ReactNativeIroh.Core.Frame
import ReactNativeIroh.Core.Registry
import ReactNativeIroh.Lib.Machine

/-!
# The accept task of a connection

`stream_connection_subscribe` spawns a task that accepts the streams the peer opens and, when
the connection has ended, calls `on_close`.  The state of the connection has a handle that
aborts the task when the state is dropped.  The registry refers to the state, and so does
every call that has looked it up: the subscription until it returns, `stream_open_stream`
until its stream is open or has failed, and `stream_close_connection` from its removal of the
state on.

The machine is that of one connection, which is subscribed at most once.  The first cause of
the end of a connection is the one it keeps.  When a connection has ended with streams of the
peer left, `accept_bi` may give the streams or the reason.
-/

namespace Iroh.Core

open Transition

/-- Where the accept task is. -/
inductive AcceptPhase where
  /-- Parked in `accept_bi`. -/
  | waiting
  /-- A worker polls the task, and `accept_bi` looks next. -/
  | polled
  /-- `accept_bi` has found nothing, and the worker is about to park the task. -/
  | pending
  | accepted
  | registered (handle : ℕ)
  | failed (err : ConnectionError)
  /-- `on_close` was called. -/
  | reported
  | ended
  | dropped
deriving DecidableEq

/-- Where the call of `stream_connection_subscribe` is. -/
inductive SubscribePhase where
  | unsubscribed
  | lookedUp
  | spawned
  | returned (result : Except IrohError Unit)

/-- Where the call of `stream_close_connection` is that has removed the state. -/
inductive ClosingPhase where
  | unclosed
  | removed
  | closed
  | returned
deriving DecidableEq

/-- The call refers to the state of the connection. -/
def SubscribePhase.refers : SubscribePhase → Bool
  | .lookedUp | .spawned => true
  | _ => false

def ClosingPhase.refers : ClosingPhase → Bool
  | .removed | .closed => true
  | _ => false

structure RawConnection where
  registered : Bool := true
  framing : Framing := .framed
  /-- The handle of the accept task is stored in the state. -/
  stored : Bool := false
  subscription : SubscribePhase := .unsubscribed
  closing : ClosingPhase := .unclosed
  /-- The framing of the streams that are being opened. -/
  opening : List Framing := []
  /-- How many streams of the peer wait to be accepted. -/
  incoming : ℕ := 0
  reason : Option ConnectionError := none
  task : Option AcceptPhase := none
  aborted : Bool := false
  streams : Registry Framing := .new
  handed : List ℕ := []
  closes : List (Option IrohError) := []

/-- What a worker does for the accept task. -/
inductive AcceptAction where
  | poll
  | accept
  | insert
  | deliver
  | pend
  | park
  | drop
  | fail
  | onClose
  | finish

inductive RawConnectionAction where
  | peerOpen
  /-- The peer or the transport ends the connection. -/
  | lose (err : ConnectionError)
  | subscribe (framing : Framing)
  | spawn
  /-- The handle of the task is stored, and the subscription returns. -/
  | store
  | task (a : AcceptAction)
  /-- `stream_close_connection` removes the state. -/
  | remove
  | close
  /-- It drops the state, and returns. -/
  | dropState
  | openStream
  | opened (i : ℕ) (ok : Bool)

namespace RawConnection

/-- How many refer to the state. -/
def references (x : RawConnection) : ℕ :=
  x.registered.toNat + x.subscription.refers.toNat + x.closing.refers.toNat + x.opening.length

/-- One that referred to the state is gone.  With the last one the state is dropped, and its
task is aborted. -/
def release (x : RawConnection) : RawConnection :=
  { x with aborted := x.aborted || (x.references == 0 && x.stored) }

def put (x : RawConnection) (p : AcceptPhase) : RawConnection := { x with task := some p }

/-- The reason of a connection that ends. -/
def terminate (x : RawConnection) (err : ConnectionError) : RawConnection :=
  { x with reason := x.reason.or (some err) }

def subscribe (handle : ℕ) (x : RawConnection) (framing : Framing) : RawConnection :=
  if x.registered then { x with framing, subscription := .lookedUp }
  else { x with subscription := .returned (.error (.invalidHandle (.ofNat handle))) }

def taskStep (x : RawConnection) (p : AcceptPhase) : AcceptAction → Option RawConnection
  | .poll => if p = .waiting ∧ x.aborted = false then some (x.put .polled) else none
  | .accept =>
      if p = .polled ∧ 0 < x.incoming then
        some { x.put .accepted with incoming := x.incoming - 1 }
      else none
  | .insert =>
      if p = .accepted then
        some { x.put (.registered x.streams.next) with streams := x.streams.insert x.framing }
      else none
  | .deliver =>
      match p with
      | .registered handle => some { x.put .polled with handed := x.handed ++ [handle] }
      | _ => none
  | .pend =>
      if p = .polled ∧ x.incoming = 0 ∧ x.reason = none then some (x.put .pending) else none
  | .park => if p = .pending then some (x.put .waiting) else none
  | .drop => if p = .waiting ∧ x.aborted = true then some (x.put .dropped) else none
  | .fail =>
      match p, x.reason with
      | .polled, some err => some (x.put (.failed err))
      | _, _ => none
  | .onClose =>
      match p with
      | .failed err =>
          some { x.put .reported with closes := x.closes ++ [connectionCloseReason err] }
      | _ => none
  | .finish => if p = .reported then some (x.put .ended) else none

def step (handle : ℕ) (x : RawConnection) : RawConnectionAction → Option RawConnection
  | .peerOpen => if x.reason = none then some { x with incoming := x.incoming + 1 } else none
  | .lose err => some (x.terminate err)
  | .subscribe framing =>
      match x.subscription with
      | .unsubscribed => some (x.subscribe handle framing)
      | _ => none
  | .spawn =>
      match x.subscription with
      | .lookedUp => some { x.put .waiting with subscription := .spawned }
      | _ => none
  | .store =>
      match x.subscription with
      | .spawned => some { x with subscription := .returned (.ok ()), stored := true }.release
      | _ => none
  | .task a => x.task.bind fun p => x.taskStep p a
  | .remove =>
      some (if x.registered then { x with registered := false, closing := .removed } else x)
  | .close =>
      if x.closing = .removed then some { x.terminate .locallyClosed with closing := .closed }
      else none
  | .dropState =>
      if x.closing = .closed then some { x with closing := .returned }.release else none
  | .openStream =>
      some (if x.registered then { x with opening := x.opening ++ [x.framing] } else x)
  | .opened i ok =>
      match x.opening[i]? with
      | some framing =>
          some { x with
            opening := x.opening.eraseIdx i
            streams := if ok then x.streams.insert framing else x.streams }.release
      | none => none

end RawConnection

/-- The machine of the connection with this handle. -/
def rawConnectionMachine (handle : ℕ) : Machine RawConnection RawConnectionAction where
  init x := x = {}
  step := RawConnection.step handle

end Iroh.Core
