import ReactNativeIroh.Core.Subscriptions
import ReactNativeIroh.Lib.Retained

/-!
# A gossip subscription

`gossip_subscribe` joins a topic on a task, spawns the task that forwards its events, and
registers the subscription, which owns that task.  `gossip_broadcast` looks the
subscription up, checks the size of its message, and hands it to the swarm on a task that
refers to the subscription until the swarm has taken it.  `gossip_unsubscribe` takes the
subscription out of the registry.

The machine is that of one subscription, with any number of broadcasts and unsubscribes
under way.  A worker that polls the forwarding task stops only where the swarm has no
event for it.
-/

namespace Iroh.Core

open Transition

/-- Where the task that joins the topic is. -/
inductive JoinPhase where
  | joining
  | joined
  | registered
  | started
  | failed
deriving DecidableEq

/-- Where the task that forwards events is. -/
inductive ForwardTask where
  | parked
  | polled
  | calling (call : GossipCall)
  | ended
  | dropped

/-- Where a call of `gossip_broadcast` is. -/
inductive BroadcastPhase where
  | lookedUp
  /-- The completion was called on the caller's thread. -/
  | refused (err : IrohError)
  | spawned
  | sent (result : Except IrohError Unit)
  | returned (result : Except IrohError Unit)

/-- A call of `gossip_broadcast`. -/
structure Broadcast where
  payload : String
  phase : BroadcastPhase

/-- The callbacks of the subscription. -/
inductive TopicCall where
  | onStart
  | forwarded (call : GossipCall)
  /-- The join failed, and `on_neighbor` got this line. -/
  | joinFailed (line : String)

structure GossipTopic where
  join : JoinPhase := .joining
  /-- The subscription, once it is registered. -/
  sub : Option Retained := none
  forward : Option ForwardTask := none
  /-- The events the swarm has for the task. -/
  events : List GossipEvent := []
  read : List GossipEvent := []
  broadcasts : List Broadcast := []
  /-- How many calls of `gossip_unsubscribe` refer to the subscription. -/
  closers : ℕ := 0
  /-- The payloads the swarm has taken. -/
  handed : List String := []
  /-- The completions that were called, by the broadcast they belong to. -/
  answers : List (ℕ × Except IrohError Unit) := []
  log : List TopicCall := []

/-- What a worker does for the forwarding task. -/
inductive ForwardAction where
  | poll
  | next
  | park
  | drop
  | call
  /-- The stream of events is over. -/
  | finish

inductive TopicAction where
  | join (result : Except String Unit)
  | insert
  | start
  | arrive (event : GossipEvent)
  | forward (a : ForwardAction)
  | broadcast (payload : String)
  /-- The size is checked, and the broadcast refused or spawned. -/
  | check (i : ℕ)
  /-- The swarm has taken the message, or has not. -/
  | send (i : ℕ) (result : Except String Unit)
  | complete (i : ℕ)
  /-- A broadcast that was refused returns. -/
  | leave (i : ℕ)
  | unsubscribe
  | closerLeaves

/-- The calls that the host makes. -/
def TopicAction.ofHost : TopicAction → Bool
  | .broadcast _ | .unsubscribe => true
  | _ => false

namespace Broadcast

/-- The broadcast refers to the subscription. -/
def refers (b : Broadcast) : Bool :=
  match b.phase with
  | .lookedUp | .refused _ | .spawned => true
  | _ => false

/-- What the completion of the broadcast got. -/
def answer? (b : Broadcast) : Option (Except IrohError Unit) :=
  match b.phase with
  | .refused err => some (.error err)
  | .returned result => some result
  | _ => none

/-- The swarm has taken the message. -/
def taken (b : Broadcast) : Bool :=
  match b.phase with
  | .sent (.ok ()) | .returned (.ok ()) => true
  | _ => false

/-- The size of the message. -/
def size (b : Broadcast) : ℕ := (Utf8.encode b.payload).length

end Broadcast

/-- The call that is being made. -/
def ForwardTask.inFlight : ForwardTask → List GossipCall
  | .calling call => [call]
  | _ => []

/-- No worker polls the task. -/
def ForwardTask.isIdle : ForwardTask → Bool
  | .polled | .calling _ => false
  | _ => true

def TopicCall.forwarded? : TopicCall → Option GossipCall
  | .forwarded call => some call
  | _ => none

def TopicCall.isStart : TopicCall → Bool
  | .onStart => true
  | _ => false

def messageTooLarge (size max : ℕ) : IrohError :=
  .gossipMessageTooLarge s!"{size} bytes exceeds the {max}-byte per-message limit"

namespace GossipTopic

/-- The calls the forwarding task has made. -/
def delivered (x : GossipTopic) : List GossipCall := x.log.filterMap TopicCall.forwarded?

def put (x : GossipTopic) (f : ForwardTask) : GossipTopic := { x with forward := some f }

def call (x : GossipTopic) (c : TopicCall) : GossipTopic := { x with log := x.log ++ [c] }

/-- The broadcast goes on to this phase. -/
def move (x : GossipTopic) (i : ℕ) (b : Broadcast) (phase : BroadcastPhase) : GossipTopic :=
  { x with broadcasts := x.broadcasts.set i { b with phase } }

def answer (x : GossipTopic) (i : ℕ) (result : Except IrohError Unit) : GossipTopic :=
  { x with answers := x.answers ++ [(i, result)] }

/-- A call that referred to the subscription does so no more. -/
def leaveSub (x : GossipTopic) : GossipTopic := { x with sub := x.sub.map Retained.leave }

/-- The subscription is registered. -/
def isRegistered (x : GossipTopic) : Bool := x.sub.any Retained.registered

/-- The task was aborted. -/
def aborted (x : GossipTopic) : Bool := x.sub.any Retained.aborted

def forwardStep (x : GossipTopic) (f : ForwardTask) : ForwardAction → Option GossipTopic
  | .poll =>
      match f with
      | .parked => if x.aborted then none else some (x.put .polled)
      | _ => none
  | .next =>
      match f, x.events with
      | .polled, event :: events =>
          let x := { x with events, read := x.read ++ [event] }
          match gossipSubscribe.forward event with
          | some call => some (x.put (.calling call))
          -- An error of the stream ends the loop, and nobody is told.
          | none => some (x.put .ended)
      | _, _ => none
  | .park =>
      match f, x.events with
      | .polled, [] => some (x.put .parked)
      | _, _ => none
  | .drop =>
      match f with
      | .parked => if x.aborted then some (x.put .dropped) else none
      | _ => none
  | .call =>
      match f with
      | .calling call => some ((x.put .polled).call (.forwarded call))
      | _ => none
  | .finish =>
      match f, x.events with
      | .polled, [] => some (x.put .ended)
      | _, _ => none

def broadcast (handle : UInt64) (x : GossipTopic) (payload : String) : GossipTopic :=
  match x.sub.bind Retained.enter with
  | some sub => { x with sub := some sub, broadcasts := x.broadcasts ++ [⟨payload, .lookedUp⟩] }
  | none =>
      let result := .error (.invalidHandle handle)
      { x with broadcasts := x.broadcasts ++ [⟨payload, .returned result⟩]
               answers := x.answers ++ [(x.broadcasts.length, result)] }

/-- The check that `gossip_broadcast` makes once it has the subscription. -/
def check (max : ℕ) (x : GossipTopic) (i : ℕ) (b : Broadcast) : GossipTopic :=
  if b.size > max then
    (x.answer i (.error (messageTooLarge b.size max))).move i b
      (.refused (messageTooLarge b.size max))
  else x.move i b .spawned

/-- The swarm has taken the message, or has not; the task lets go of the subscription. -/
def send (x : GossipTopic) (i : ℕ) (b : Broadcast) : Except String Unit → GossipTopic
  | .ok () => { (x.move i b (.sent (.ok ()))).leaveSub with handed := x.handed ++ [b.payload] }
  | .error e => (x.move i b (.sent (.error (.gossipBroadcast e)))).leaveSub

def step (handle : UInt64) (max : ℕ) (x : GossipTopic) : TopicAction → Option GossipTopic
  | .join (.ok ()) =>
      if x.join = .joining then some { x.put .parked with join := .joined } else none
  | .join (.error e) =>
      if x.join = .joining then
        some { x.call (.joinFailed ("error " ++ e)) with join := .failed }
      else none
  | .insert =>
      if x.join = .joined then some { x with join := .registered, sub := some { stored := true } }
      else none
  | .start =>
      if x.join = .registered then some { x.call .onStart with join := .started } else none
  | .arrive event =>
      if x.forward.isSome then some { x with events := x.events ++ [event] } else none
  | .forward a => x.forward.bind fun f => x.forwardStep f a
  | .broadcast payload => some (x.broadcast handle payload)
  | .check i =>
      match x.broadcasts[i]? with
      | some ⟨payload, .lookedUp⟩ => some (x.check max i ⟨payload, .lookedUp⟩)
      | _ => none
  | .send i result =>
      match x.broadcasts[i]? with
      | some ⟨payload, .spawned⟩ => some (x.send i ⟨payload, .spawned⟩ result)
      | _ => none
  | .complete i =>
      match x.broadcasts[i]? with
      | some ⟨payload, .sent result⟩ =>
          some ((x.answer i result).move i ⟨payload, .sent result⟩ (.returned result))
      | _ => none
  | .leave i =>
      match x.broadcasts[i]? with
      | some ⟨payload, .refused err⟩ =>
          some (x.move i ⟨payload, .refused err⟩ (.returned (.error err))).leaveSub
      | _ => none
  | .unsubscribe =>
      match x.sub.bind Retained.remove with
      | some sub => some { x with sub := some sub, closers := x.closers + 1 }
      | none => some x
  | .closerLeaves =>
      if 0 < x.closers then some { x.leaveSub with closers := x.closers - 1 } else none

end GossipTopic

/-- The machine of the subscription with this handle, where a message may have `max` bytes. -/
def gossipTopicMachine (handle : UInt64) (max : ℕ) : Machine GossipTopic TopicAction where
  init x := x = {}
  step := GossipTopic.step handle max

end Iroh.Core
