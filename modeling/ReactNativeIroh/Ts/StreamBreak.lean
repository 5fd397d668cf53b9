import Mathlib.Data.List.Induction
import ReactNativeIroh.Ts.Stream

/-!
# Breaking out of a data loop

The iterable `data` of a stream is its queue of chunks.  Its `return()` ends the queue, and
the stream does not hear of it: the iterable has ended, and the stream stays open until the
native side or the host closes it.  In a run where `return()` is only called on a stream that
has been settled, the two end together, and the native handle is released once.
-/

namespace Iroh

open Ownership

/-- How often the native handle was released and the owner was told. -/
structure Teardown where
  closeStream : ℕ := 0
  onDispose : ℕ := 0
deriving DecidableEq

/-- The owner that counts. -/
def Teardown.owner : Owner Teardown where
  release t := { t with closeStream := t.closeStream + 1 }
  onDispose t := { t with onDispose := t.onDispose + 1 }

/-- What can happen to a stream, with the calls of `send()` and what the native side answers. -/
inductive StreamCall where
  | event (e : StreamEvent)
  | send (sent : Except IrohError Unit)

namespace StreamController

variable {ω : Type*}

/-- `send()` only asks whether the stream has ended. -/
def send (sent : Except IrohError Unit) (s : StreamController) : Except IrohError Unit :=
  if s.isClosed then .error ⟨.streamClosed, "stream is closed"⟩ else sent

def call (o : Owner ω) : StreamCall → StreamController × ω → StreamController × ω
  | .event e, p => handle o e p
  | .send _, p => p

/-- A new stream after some calls. -/
def called (capacity : Option Number) (cs : List StreamCall) : StreamController × Teardown :=
  cs.foldl (fun p c => call Teardown.owner c p) (new capacity, {})

/-- The iterable has ended exactly when the stream has, and then the handle was released once
and the owner was told once. -/
structure Together (p : StreamController × Teardown) : Prop where
  ended : p.1.chunks.isClosed = true → p.1.isClosed = true ∧
    p.1.settlement.outcome.isSome = true ∧ p.2.closeStream = 1 ∧ p.2.onDispose = 1
  settled : p.1.isClosed = true → p.1.chunks.isClosed = true

theorem call_once (o : Owner ω) (c : StreamCall) : Once isClosed o (call o c) := by
  cases c with
  | event e => exact handle_once o e
  | send sent => exact fun _ _ => Or.inl ⟨rfl, rfl⟩

/-- The handle is released and the owner is told once, when the stream is settled. -/
theorem called_teardown (capacity : Option Number) (cs : List StreamCall) :
    (called capacity cs).2 = if (called capacity cs).1.isClosed then ⟨1, 1⟩ else {} :=
  Once.foldl (call_once Teardown.owner) cs rfl {}

/-- The queue has ended exactly when the stream has. -/
def Agrees (s : StreamController) : Prop := s.chunks.isClosed = s.isClosed

theorem Agrees.finish {s : StreamController} (h : s.Agrees) (o : Owner ω)
    (error : Option IrohError) (w : ω) : (StreamController.finish o error (s, w)).1.Agrees := by
  cases hs : s.isClosed with
  | true =>
      rw [finish_closed o error hs]
      exact h
  | false =>
      rw [Agrees, finish_isClosed]
      exact finish_ends o error hs w

/-- Only `return()` on an open stream parts them. -/
theorem Agrees.handle {s : StreamController} (h : s.Agrees) (o : Owner ω) {e : StreamEvent}
    (he : e = .return → s.isClosed = true) (w : ω) :
    (StreamController.handle o e (s, w)).1.Agrees := by
  cases e with
  | onData chunk =>
      rcases onData_cases o chunk s w with
        ⟨hc, hd⟩ | ⟨hc, p, ps, hw, hd⟩ | ⟨hc, hw, hx, hd⟩ | ⟨hc, hw, hx, oldest, rest, hb, hd⟩
      · rw [StreamController.handle, hd]
        exact h
      · rw [StreamController.handle, hd]
        exact h
      · rw [StreamController.handle, hd]
        exact h
      · rw [StreamController.handle, hd]
        have hsame : StreamController.Agrees { s with
            chunks := { s.chunks with
              buffer := rest ++ [chunk], droppedCount := s.chunks.droppedCount + 1 } } := h
        exact hsame.finish o _ w
  | onClose event => exact h.finish o _ w
  | close => exact h.finish o none w
  | next => exact (MessageQueue.next_isClosed s.chunks).trans h
  | «return» =>
      have hclosed : s.chunks.isClosed = true := h.trans (he rfl)
      rw [StreamController.handle, MessageQueue.return, MessageQueue.close_closed {} hclosed]
      exact h

theorem called_append (capacity : Option Number) (cs : List StreamCall) (c : StreamCall) :
    called capacity (cs ++ [c]) = call Teardown.owner c (called capacity cs) := by
  rw [called, List.foldl_append]
  rfl

/-- Where they agree, they end together. -/
theorem Agrees.together {capacity : Option Number} {cs : List StreamCall}
    (h : (called capacity cs).1.Agrees) : Together (called capacity cs) := by
  refine ⟨fun hended => ?_, fun hs => h.trans hs⟩
  have hs : (called capacity cs).1.isClosed = true := h.symm.trans hended
  have hteardown := called_teardown capacity cs
  rw [if_pos hs] at hteardown
  rw [hteardown]
  exact ⟨hs, by rwa [isClosed, Settlement.isSettled_eq] at hs, rfl, rfl⟩

/-- `return()` is only called on a stream that has been settled. -/
def Unbroken (capacity : Option Number) (cs : List StreamCall) : Prop :=
  ∀ cs', cs' ++ [.event .return] <+: cs → (called capacity cs').1.isClosed = true

theorem Unbroken.agrees {capacity : Option Number} {cs : List StreamCall}
    (h : Unbroken capacity cs) : (called capacity cs).1.Agrees := by
  induction cs using List.reverseRecOn with
  | nil => rfl
  | append_singleton cs c ih =>
      have hcs := ih fun cs' hcs' => h cs' (hcs'.trans (List.prefix_append _ _))
      rw [called_append]
      cases c with
      | send sent => exact hcs
      | event e =>
          refine hcs.handle Teardown.owner (fun he => ?_) _
          subst he
          exact h cs List.prefix_rfl

/-- The iterable and the stream end together along a run exactly when nobody breaks out of an
open stream. -/
theorem together_iff (capacity : Option Number) (cs : List StreamCall) :
    (∀ cs', cs' <+: cs → Together (called capacity cs')) ↔ Unbroken capacity cs := by
  constructor
  · intro h cs' hcs'
    have hbroken := h (cs' ++ [.event .return]) hcs'
    rw [called_append] at hbroken
    -- `return()` ends the queue, and leaves the settlement as it was
    exact (hbroken.ended (MessageQueue.close_isClosed {} _ none _)).1
  · intro h cs' hcs'
    exact Agrees.together (Unbroken.agrees fun cs'' hcs'' => h cs'' (hcs''.trans hcs'))

/-- One chunk, and a loop that breaks after it. -/
def brokenLoop : List StreamCall :=
  [.event .next, .event (.onData [1]), .event .return]

theorem not_together_broken : ¬ Together (called none brokenLoop) ∧
    (called none brokenLoop).1.chunks.isClosed = true ∧
    (called none brokenLoop).1.isClosed = false ∧ (called none brokenLoop).2 = {} := by
  refine ⟨fun h => ?_, by decide, by decide, by decide⟩
  have hclosed := (h.ended (by decide)).1
  exact absurd hclosed (by decide)

end StreamController

end Iroh
