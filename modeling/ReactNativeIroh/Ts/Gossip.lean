import ReactNativeIroh.Lib.Ownership
import ReactNativeIroh.Ts.IrohError
import ReactNativeIroh.Ts.MessageQueue

/-!
# Gossip subscriptions

`GossipSubscriptionController` bridges the callbacks of a native subscription to two
queues.  The native side reports the id of the subscription by `onStart`, or the
failure of the join by a neighbor line, some time after `startSubscribe` returned.

The endpoint keeps its subscriptions in a roster.  A subscription is known there by
the order of the calls that made it, and the roster's record of releases is that of
the subscriptions dropped by `onDispose`.  The calls of `gossipUnsubscribe` are
recorded in the rest of the state.
-/

namespace Iroh

open Ownership

structure GossipMessage where
  text : String
  «from» : String
deriving DecidableEq

inductive NeighborChange where
  | up
  | down
deriving DecidableEq

structure GossipNeighborEvent where
  type : NeighborChange
  endpointId : String
deriving DecidableEq

/-- The tag of a callback line and the rest, if a space separates them. -/
def splitTagged (line : String) : Option (String × String) :=
  (line.toList.idxOf? ' ').map fun space =>
    (String.ofList (line.toList.take space), String.ofList (line.toList.drop (space + 1)))

/-- A line without a space is text from an unknown sender. -/
def parseMessage (line : String) : GossipMessage :=
  match splitTagged line with
  | some (tag, rest) => { «from» := tag, text := rest }
  | none => { «from» := "", text := line }

/-- What a neighbor line says. -/
inductive NeighborLine where
  | lagged
  | error (detail : String)
  | change (e : GossipNeighborEvent)
  | ignored

def parseNeighbor (line : String) : NeighborLine :=
  if line = "lagged" then .lagged
  else
    match splitTagged line with
    | some (tag, rest) =>
        if tag = "error" then .error rest
        else if tag = "up" then .change ⟨.up, rest⟩
        else if tag = "down" then .change ⟨.down, rest⟩
        else .ignored
    | none => .ignored

structure GossipSubscriptionController where
  messageQueue : MessageQueue GossipMessage IrohError
  neighborQueue : MessageQueue GossipNeighborEvent IrohError
  subId : Option ℕ := none
  disposed : Bool := false
  ready : Option (Except IrohError ℕ) := none

/-- What a subscription reaches through its endpoint. -/
structure GossipHooks (ω : Type*) where
  /-- `binding.unsubscribe(subId)`. -/
  unsubscribe : ℕ → ω → ω
  onDispose : ω → ω

inductive GossipEvent where
  | onStart (subId : ℕ)
  | onMessage (line : String)
  | onNeighbor (line : String)
  | unsubscribe
  | nextMessage
  | returnMessages
  | nextNeighbor
  | returnNeighbors
deriving DecidableEq

/-- What a subscription torn down before it started rejects `joined` with. -/
def endedBeforeStart : IrohError :=
  ⟨.invalidHandle, "gossip subscription ended before it started"⟩

namespace GossipSubscriptionController

variable {ω : Type*}

/-- The constructor, once `startSubscribe` has returned. -/
def new (capacity : Option Number) : GossipSubscriptionController :=
  { messageQueue := .new capacity, neighborQueue := .new none }

/-- Settle the promise `ready`, which a promise does once. -/
def settleReady (r : Except IrohError ℕ) (s : GossipSubscriptionController) :
    GossipSubscriptionController :=
  { s with ready := s.ready.orElse fun _ => some r }

/-- The hooks of both queues: a lag is only logged. -/
def hooks {α : Type*} : QueueHooks α IrohError Unit := {}

/-- End both streams. -/
def closeQueues (error : Option IrohError) (s : GossipSubscriptionController) :
    GossipSubscriptionController :=
  { s with
    messageQueue := (MessageQueue.close hooks error (s.messageQueue, ())).1
    neighborQueue := (MessageQueue.close hooks error (s.neighborQueue, ())).1 }

def unsubscribe (h : GossipHooks ω) :
    GossipSubscriptionController × ω → GossipSubscriptionController × ω
  | (s, w) =>
      if s.disposed then (s, w)
      else
        let s := { s with disposed := true }
        match s.subId with
        | some subId => (s.closeQueues none, h.onDispose (h.unsubscribe subId w))
        | none => ((s.settleReady (.error endedBeforeStart)).closeQueues none, h.onDispose w)

/-- The native subscription has joined the topic. -/
def onStart (h : GossipHooks ω) (subId : ℕ) :
    GossipSubscriptionController × ω → GossipSubscriptionController × ω
  | (s, w) =>
      let s := { s with subId := some subId }
      if s.disposed then (s, h.unsubscribe subId w) else (s.settleReady (.ok subId), w)

/-- The native join failed. -/
def failJoin (h : GossipHooks ω) (error : IrohError) :
    GossipSubscriptionController × ω → GossipSubscriptionController × ω
  | (s, w) =>
      if s.disposed then (s, w)
      else
        (({ s with disposed := true }.settleReady (.error error)).closeQueues (some error),
          h.onDispose w)

def onMessage (line : String) (s : GossipSubscriptionController) : GossipSubscriptionController :=
  { s with messageQueue := (MessageQueue.push hooks (parseMessage line) (s.messageQueue, ())).1 }

def onNeighbor (h : GossipHooks ω) (line : String) :
    GossipSubscriptionController × ω → GossipSubscriptionController × ω
  | (s, w) =>
      match parseNeighbor line with
      | .lagged =>
          ({ s with messageQueue := (MessageQueue.markLagged hooks (s.messageQueue, ())).1 }, w)
      | .error detail => failJoin h ⟨.gossipSubscribe, detail⟩ (s, w)
      | .change e =>
          ({ s with neighborQueue := (MessageQueue.push hooks e (s.neighborQueue, ())).1 }, w)
      | .ignored => (s, w)

def handle (h : GossipHooks ω) :
    GossipEvent → GossipSubscriptionController × ω → GossipSubscriptionController × ω
  | .onStart subId, p => onStart h subId p
  | .onMessage line, (s, w) => (s.onMessage line, w)
  | .onNeighbor line, p => onNeighbor h line p
  | .unsubscribe, p => unsubscribe h p
  | .nextMessage, (s, w) => ({ s with messageQueue := s.messageQueue.next }, w)
  | .returnMessages, (s, w) =>
      ({ s with messageQueue := (MessageQueue.return hooks (s.messageQueue, ())).1 }, w)
  | .nextNeighbor, (s, w) => ({ s with neighborQueue := s.neighborQueue.next }, w)
  | .returnNeighbors, (s, w) =>
      ({ s with neighborQueue := (MessageQueue.return hooks (s.neighborQueue, ())).1 }, w)

/-! ## Subscriptions as members of the roster -/

/-- The hooks of subscription `i`. -/
def gossipHooks (i : ℕ) : GossipHooks (Ledger ℕ × List ℕ) where
  unsubscribe subId p := (p.1, p.2 ++ [subId])
  onDispose p := ((p.1.release i).dispose i, p.2)

/-- An event of subscription `i`, as an operation on the roster. -/
def gossipOp (e : GossipEvent) (i : ℕ) : Op ℕ GossipSubscriptionController (List ℕ) :=
  handle (gossipHooks i) e

/-- Torn down or not, a subscription is torn down after it was unsubscribed. -/
theorem unsubscribe_disposed (h : GossipHooks ω) (p : GossipSubscriptionController × ω) :
    (unsubscribe h p).1.disposed = true := by
  obtain ⟨s, w⟩ := p
  simp only [unsubscribe]
  split
  · next hd => exact hd
  · split
    · rfl
    · rfl

theorem gossipOp_oneShot (e : GossipEvent) (i : ℕ) :
    OneShot GossipSubscriptionController.disposed i (gossipOp e i) := by
  intro s l w
  cases e with
  | onStart subId =>
      refine Or.inl ?_
      simp only [gossipOp, handle, onStart]
      split
      · exact ⟨rfl, rfl⟩
      · exact ⟨rfl, rfl⟩
  | onMessage line => exact Or.inl ⟨rfl, rfl⟩
  | onNeighbor line =>
      simp only [gossipOp, handle, onNeighbor]
      split
      · exact Or.inl ⟨rfl, rfl⟩
      · simp only [failJoin]
        split
        · exact Or.inl ⟨rfl, rfl⟩
        · next hd => exact Or.inr ⟨by simpa using hd, rfl, rfl⟩
      · exact Or.inl ⟨rfl, rfl⟩
      · exact Or.inl ⟨rfl, rfl⟩
  | unsubscribe =>
      simp only [gossipOp, handle, unsubscribe]
      split
      · exact Or.inl ⟨rfl, rfl⟩
      · next hd =>
          have hlive : s.disposed = false := by simpa using hd
          split
          · exact Or.inr ⟨hlive, rfl, rfl⟩
          · exact Or.inr ⟨hlive, rfl, rfl⟩
  | nextMessage => exact Or.inl ⟨rfl, rfl⟩
  | returnMessages => exact Or.inl ⟨rfl, rfl⟩
  | nextNeighbor => exact Or.inl ⟨rfl, rfl⟩
  | returnNeighbors => exact Or.inl ⟨rfl, rfl⟩

theorem gossipOp_unsubscribe_disposes (i : ℕ)
    (p : GossipSubscriptionController × Ledger ℕ × List ℕ) :
    (gossipOp .unsubscribe i p).1.disposed = true :=
  unsubscribe_disposed _ p

end GossipSubscriptionController

end Iroh
