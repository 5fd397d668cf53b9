import ReactNativeIroh.Core.ReadTask
import ReactNativeIroh.Lib.Machine
import ReactNativeIroh.Lib.Retained

/-!
# The receive half of a stream

`stream_subscribe` takes the receive half out of the stream, spawns the read task and
stores its handle in the stream.  `stream_close` takes the stream out of the registry.
Calls on other threads go on meanwhile: any number of subscriptions, sends and closes may
have looked the stream up and not returned.

A step of the machine is what a call does between two points where another thread may
come in, what the read task does, or what the transport does.  A worker that polls the
read task stops only where the transport has nothing for it; a task that was aborted is
dropped there.
-/

namespace Iroh.Core

open Transition

/-- How the peer or the transport ends the bytes of a stream. -/
inductive StreamEnd where
  | finished
  | failed (err : ReadError)
deriving DecidableEq

/-- A callback of a subscription. -/
inductive StreamCall where
  | onData (chunk : List UInt8)
  | onClose (outcome : Option IrohError)
deriving DecidableEq

/-- Where a call of `stream_subscribe` is. -/
inductive ReaderPhase where
  | lookedUp
  | taken
  | spawned
  | returned (result : Except IrohError Unit)

/-- Where the read task is. -/
inductive ReadPhase where
  | parked (r : Reading)
  | polled (r : Reading)
  | calling (chunk : List UInt8) (r : Reading)
  | closing (outcome : Option IrohError)
  | ended
  | dropped
deriving DecidableEq

structure RawStream where
  framing : Framing
  state : Retained := {}
  /-- The receive half is there. -/
  recv : Bool := true
  readers : List ReaderPhase := []
  /-- How many calls of `stream_send` and `stream_close` refer to the stream. -/
  others : ℕ := 0
  task : Option ReadPhase := none
  /-- The bytes the transport has for the next reads. -/
  arrived : List UInt8 := []
  ending : Option StreamEnd := none
  consumed : List UInt8 := []
  log : List StreamCall := []

/-- What a worker does for the read task. -/
inductive ReadAction where
  | poll
  /-- A read gives this many bytes. -/
  | read (n : ℕ)
  /-- A read gives how the stream ended. -/
  | readEnd
  | park
  | drop
  | onData
  | onClose

inductive RawStreamAction where
  | arrive (bytes : List UInt8)
  | finish
  | fail (err : ReadError)
  | subscribe
  | take (i : ℕ)
  | spawn (i : ℕ)
  /-- The handle of the task is stored, and the subscription returns. -/
  | store (i : ℕ)
  /-- A send looks the stream up. -/
  | send
  | close
  /-- A send or a close returns. -/
  | leave
  | task (a : ReadAction)

/-- A call of `stream_subscribe` refers to the stream. -/
def ReaderPhase.refers : ReaderPhase → Bool
  | .returned _ => false
  | _ => true

/-- The call of `stream_subscribe` has the receive half. -/
def ReaderPhase.isTaken : ReaderPhase → Bool
  | .taken => true
  | _ => false

/-- The call of `stream_subscribe` has spawned the read task. -/
def ReaderPhase.started : ReaderPhase → Bool
  | .spawned | .returned (.ok ()) => true
  | _ => false

def ReaderPhase.succeeded : ReaderPhase → Bool
  | .returned (.ok ()) => true
  | _ => false

/-- What a second subscription is told. -/
def alreadyRead : IrohError := .internal "stream is already being read"

def StreamCall.chunk? : StreamCall → Option (List UInt8)
  | .onData chunk => some chunk
  | .onClose _ => none

def StreamCall.outcome? : StreamCall → Option (Option IrohError)
  | .onData _ => none
  | .onClose outcome => some outcome

/-- A step of the loop, as the phase it leads to. -/
def ReadStep.phase : ReadStep → ReadPhase
  | .read r => .polled r
  | .deliver chunk r => .calling chunk r
  | .close outcome => .closing outcome

/-- A worker polls the task. -/
def ReadPhase.isPolled : ReadPhase → Bool
  | .polled _ | .calling _ _ | .closing _ => true
  | _ => false

/-- The chunk that is being delivered. -/
def ReadPhase.inFlight : ReadPhase → List (List UInt8)
  | .calling chunk _ => [chunk]
  | _ => []

namespace RawStream

/-- The chunks `on_data` got. -/
def delivered (x : RawStream) : List (List UInt8) := x.log.filterMap StreamCall.chunk?

/-- The outcomes `on_close` got. -/
def closes (x : RawStream) : List (Option IrohError) := x.log.filterMap StreamCall.outcome?

/-- The chunks `on_data` got, and the one it is getting. -/
def chunks (x : RawStream) : List (List UInt8) :=
  x.delivered ++ (x.task.map ReadPhase.inFlight).getD []

def put (x : RawStream) (p : ReadPhase) : RawStream := { x with task := some p }

/-- The call goes on to this phase. -/
def reader (x : RawStream) (i : ℕ) (p : ReaderPhase) : RawStream :=
  { x with readers := x.readers.set i p }

def call (x : RawStream) (c : StreamCall) : RawStream := { x with log := x.log ++ [c] }

def subscribe (handle : UInt64) (x : RawStream) : RawStream :=
  match x.state.enter with
  | some state => { x with state, readers := x.readers ++ [.lookedUp] }
  | none => { x with readers := x.readers ++ [.returned (.error (.invalidHandle handle))] }

/-- The subscription takes the receive half, or fails for the lack of it. -/
def takeRecv (x : RawStream) (i : ℕ) : RawStream :=
  if x.recv then { x.reader i .taken with recv := false }
  else { x.reader i (.returned (.error alreadyRead)) with state := x.state.leave }

def readStep (x : RawStream) (p : ReadPhase) : ReadAction → Option RawStream
  | .poll =>
      match p with
      | .parked r => if x.state.aborted then none else some (x.put (.polled r))
      | _ => none
  | .read n =>
      match p with
      | .polled r =>
          if 0 < n ∧ n ≤ r.wanted ∧ n ≤ x.arrived.length then
            some { x.put (r.feed (.bytes (x.arrived.take n))).phase with
              arrived := x.arrived.drop n, consumed := x.consumed ++ x.arrived.take n }
          else none
      | _ => none
  | .readEnd =>
      match p, x.ending with
      | .polled r, some .finished =>
          -- The bytes before a finish are read first.
          if x.arrived = [] then some (x.put (r.feed .finished).phase) else none
      | .polled r, some (.failed err) => some (x.put (r.feed (.failed err)).phase)
      | _, _ => none
  | .park =>
      match p with
      | .polled r => if x.arrived = [] ∧ x.ending = none then some (x.put (.parked r)) else none
      | _ => none
  | .drop =>
      match p with
      | .parked _ => if x.state.aborted then some (x.put .dropped) else none
      | _ => none
  | .onData =>
      match p with
      | .calling chunk r => some ((x.put (.polled r)).call (.onData chunk))
      | _ => none
  | .onClose =>
      match p with
      | .closing outcome => some ((x.put .ended).call (.onClose outcome))
      | _ => none

def step (handle : UInt64) (x : RawStream) : RawStreamAction → Option RawStream
  | .arrive bytes =>
      if x.ending = none then some { x with arrived := x.arrived ++ bytes } else none
  | .finish => if x.ending = none then some { x with ending := some .finished } else none
  | .fail err => if x.ending = none then some { x with ending := some (.failed err) } else none
  | .subscribe => some (x.subscribe handle)
  | .take i =>
      match x.readers[i]? with
      | some .lookedUp => some (x.takeRecv i)
      | _ => none
  | .spawn i =>
      match x.readers[i]? with
      | some .taken => some ((x.put (.parked (.start x.framing))).reader i .spawned)
      | _ => none
  | .store i =>
      match x.readers[i]? with
      | some .spawned => some { x.reader i (.returned (.ok ())) with state := x.state.store }
      | _ => none
  | .send => x.state.enter.map fun state => { x with state, others := x.others + 1 }
  | .close =>
      match x.state.remove with
      | some state => some { x with state, others := x.others + 1 }
      | none => some x
  | .leave =>
      if 0 < x.others then some { x with state := x.state.leave, others := x.others - 1 } else none
  | .task a => x.task.bind fun p => x.readStep p a

end RawStream

/-- The machine of the stream with this handle. -/
def rawStreamMachine (handle : UInt64) (framing : Framing) : Machine RawStream RawStreamAction where
  init x := x = { framing }
  step := RawStream.step handle

end Iroh.Core
