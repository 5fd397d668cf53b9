import ReactNativeIroh.Core.Registry
import ReactNativeIroh.Core.Utf8
import ReactNativeIroh.Lib.Machine

/-!
# Subscriptions

A subscription forwards the items of a stream into callbacks of the host, by a task that
is aborted when the subscription is removed from its registry.  `on_start` gets the
handle of the subscription.  `watch_addr` spawns the task on the calling thread, registers
it and returns its handle, and the bridge calls `on_start`.  `gossip_subscribe` does
the same on a task of its own, once the topic is joined; it reports a failed join through
`on_neighbor` and never calls `on_start`.

The two differ in whether they join, and in what the task makes of an item, which is
`none` for the item that ends the loop.
-/

namespace Iroh.Core

open Transition

/-- What a kind of subscription does with the items of its stream. -/
structure SubscriptionKind (ε κ : Type*) where
  joins : Bool
  forward : ε → Option κ

/-- The callbacks of a subscription that were invoked. -/
inductive SubscriptionEvent (κ : Type*) where
  | started (handle : ℕ)
  | callback (call : κ)
  /-- The join failed, and `on_neighbor` got this line. -/
  | failed (line : String)

/-- Where the thread or task is that makes the subscription. -/
inductive StarterPhase where
  | joining
  | spawned
  | registered (handle : ℕ)
  | started (handle : ℕ)
  | failed

/-- Where the task that forwards items is. -/
inductive ForwardPhase (κ : Type*) where
  | unspawned
  | waiting
  | calling (call : κ)
  | ended
  | dropped

structure Subscription (κ : Type*) where
  starter : StarterPhase
  phase : ForwardPhase κ
  polled : Bool := false
  aborted : Bool := false
  log : List (SubscriptionEvent κ) := []

inductive SubscriptionAction (ε : Type*) where
  /-- The call, of arguments that are valid. -/
  | subscribe
  | join (i : ℕ) (result : Except String Unit)
  | register (i : ℕ)
  | start (i : ℕ)
  | poll (i : ℕ)
  | yield (i : ℕ)
  | drop (i : ℕ)
  /-- The stream gives an item, or it has ended. -/
  | next (i : ℕ) (item : Option ε)
  | call (i : ℕ)
  | stop (handle : ℕ)

structure SubscriptionRun (κ : Type*) where
  registry : Registry ℕ := .new
  subscriptions : ℕ → Option (Subscription κ) := fun _ => none
  count : ℕ := 0

namespace Subscription

variable {ε κ : Type*}

def make (kind : SubscriptionKind ε κ) : Subscription κ :=
  if kind.joins then { starter := .joining, phase := .unspawned }
  else { starter := .spawned, phase := .waiting }

/-- The task of `gossip_subscribe`, once the join has ended. -/
def join (s : Subscription κ) (result : Except String Unit) : Option (Subscription κ) :=
  match s.starter, result with
  | .joining, .ok () => some { s with starter := .spawned, phase := .waiting }
  | .joining, .error e =>
      some { s with starter := .failed, log := s.log ++ [.failed ("error " ++ e)] }
  | _, _ => none

def start (s : Subscription κ) : Option (Subscription κ) :=
  match s.starter with
  | .registered handle =>
      some { s with starter := .started handle, log := s.log ++ [.started handle] }
  | _ => none

/-- A worker starts to poll the task. -/
def poll (s : Subscription κ) : Option (Subscription κ) :=
  match s.phase, s.polled, s.aborted with
  | .waiting, false, false => some { s with polled := true }
  | _, _, _ => none

def yield (s : Subscription κ) : Option (Subscription κ) :=
  match s.phase, s.polled with
  | .waiting, true => some { s with polled := false }
  | _, _ => none

/-- The abort that was requested takes effect. -/
def drop (s : Subscription κ) : Option (Subscription κ) :=
  match s.phase, s.polled, s.aborted with
  | .waiting, false, true => some { s with phase := .dropped }
  | _, _, _ => none

def next (kind : SubscriptionKind ε κ) (s : Subscription κ) (item : Option ε) :
    Option (Subscription κ) :=
  match s.phase, s.polled, item.bind kind.forward with
  | .waiting, true, some call => some { s with phase := .calling call }
  | .waiting, true, none => some { s with phase := .ended, polled := false }
  | _, _, _ => none

def call (s : Subscription κ) : Option (Subscription κ) :=
  match s.phase with
  | .calling call => some { s with phase := .waiting, log := s.log ++ [.callback call] }
  | _ => none

end Subscription

namespace SubscriptionRun

variable {ε κ : Type*}

def put (x : SubscriptionRun κ) (i : ℕ) (s : Subscription κ) : SubscriptionRun κ :=
  { x with subscriptions := Function.update x.subscriptions i (some s) }

def register (x : SubscriptionRun κ) (i : ℕ) (s : Subscription κ) : Option (SubscriptionRun κ) :=
  match s.starter with
  | .spawned =>
      some { x.put i { s with starter := .registered x.registry.next } with
        registry := x.registry.insert i }
  | _ => none

/-- Removing the subscription drops the handle of its task, which aborts the task.  It is
no error that there is none. -/
def stop (x : SubscriptionRun κ) (handle : ℕ) : SubscriptionRun κ :=
  match x.registry.items handle with
  | some i =>
      match x.subscriptions i with
      | some s => { x.put i { s with aborted := true } with registry := x.registry.remove handle }
      | none => { x with registry := x.registry.remove handle }
  | none => x

def step (kind : SubscriptionKind ε κ) (x : SubscriptionRun κ) :
    SubscriptionAction ε → Option (SubscriptionRun κ)
  | .subscribe => some { x.put x.count (.make kind) with count := x.count + 1 }
  | .join i result => (x.subscriptions i).bind fun s => (s.join result).map (x.put i)
  | .register i => (x.subscriptions i).bind (x.register i)
  | .start i => (x.subscriptions i).bind fun s => s.start.map (x.put i)
  | .poll i => (x.subscriptions i).bind fun s => s.poll.map (x.put i)
  | .yield i => (x.subscriptions i).bind fun s => s.yield.map (x.put i)
  | .drop i => (x.subscriptions i).bind fun s => s.drop.map (x.put i)
  | .next i item => (x.subscriptions i).bind fun s => (s.next kind item).map (x.put i)
  | .call i => (x.subscriptions i).bind fun s => s.call.map (x.put i)
  | .stop handle => some (x.stop handle)

end SubscriptionRun

def subscriptionMachine {ε κ : Type*} (kind : SubscriptionKind ε κ) :
    Machine (SubscriptionRun κ) (SubscriptionAction ε) where
  init x := x = {}
  step := SubscriptionRun.step kind

/-! ## The subscriptions of the bridge -/

/-- `watch_addr`.  `on_change` gets every address. -/
def watchAddr (α : Type*) : SubscriptionKind α α where
  joins := false
  forward := some

/-- An event of a topic. -/
inductive GossipEvent where
  | received (deliveredFrom : String) (content : List UInt8)
  | neighborUp (id : String)
  | neighborDown (id : String)
  | lagged
  | error (text : String)

/-- A callback of `gossip_subscribe`, with the line it gets. -/
inductive GossipCall where
  | onMessage (line : String)
  | onNeighbor (line : String)

/-- `gossip_subscribe`.  An error of the stream ends the loop. -/
def gossipSubscribe : SubscriptionKind GossipEvent GossipCall where
  joins := true
  forward
    | .received deliveredFrom content =>
        some (.onMessage (deliveredFrom ++ " " ++ String.ofList (Utf8.fromUtf8Lossy content)))
    | .neighborUp id => some (.onNeighbor ("up " ++ id))
    | .neighborDown id => some (.onNeighbor ("down " ++ id))
    | .lagged => some (.onNeighbor "lagged")
    | .error _ => none

end Iroh.Core
