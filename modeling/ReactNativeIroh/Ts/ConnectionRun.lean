import ReactNativeIroh.Lib.Machine
import ReactNativeIroh.Ts.Connection

/-!
# Runs of a connection

The machine of one connection.  The host may call `openStream()` at any time; the
native promise it makes settles at any later time, with a fresh stream id or with
an error.  Every other event may happen in any state.  The only assumption about
the native side is that it hands out each stream id once, which is the law of the
handle registry.

Beside the connection the state counts the pending promises and records, for the
statements only, the ids the native side has handed over and those of them that
came with `onStream`.
-/

namespace Iroh

open Ownership Transition

/-- A connection, its owner's state, and the history of one run. -/
structure ConnectionRun (ω : Type*) where
  connection : ConnectionController
  world : ω
  pending : ℕ := 0
  handed : List ℕ := []
  peers : List ℕ := []

inductive ConnectionAction where
  | openStream
  | openFailed
  | event (e : ConnectionEvent)

namespace ConnectionEvent

/-- How many promises of `openStream()` the event settles. -/
def settles : ConnectionEvent → ℕ
  | .opened _ _ => 1
  | _ => 0

/-- The stream the peer opened. -/
def peer : ConnectionEvent → Option ℕ
  | .onStream streamId _ => some streamId
  | _ => none

theorem arriving_of_peer {e : ConnectionEvent} {i : ℕ} (h : e.peer = some i) :
    e.arriving = some i := by
  cases e with
  | onStream j wraps => exact h
  | opened _ _ => cases h
  | onClose _ => cases h
  | close => cases h
  | stream _ _ => cases h
  | incomingNext => cases h
  | incomingReturn => cases h

end ConnectionEvent

namespace ConnectionRun

variable {ω : Type*}

/-- What the native side may do: settle a pending promise, hand over a new id. -/
def enabled (x : ConnectionRun ω) (e : ConnectionEvent) : Bool :=
  decide (e.settles ≤ x.pending) && e.arriving.all fun i => decide (i ∉ x.handed)

def after (o : Owner ω) (x : ConnectionRun ω) (e : ConnectionEvent) : ConnectionRun ω where
  connection := (ConnectionController.handle o e (x.connection, x.world)).1
  world := (ConnectionController.handle o e (x.connection, x.world)).2
  pending := x.pending - e.settles
  handed := x.handed ++ e.arriving.toList
  peers := x.peers ++ e.peer.toList

def step (o : Owner ω) (x : ConnectionRun ω) : ConnectionAction → Option (ConnectionRun ω)
  | .openStream => some { x with pending := x.pending + 1 }
  | .openFailed => if x.pending = 0 then none else some { x with pending := x.pending - 1 }
  | .event e => if x.enabled e then some (x.after o e) else none

/-- Everything a step can do. -/
theorem step_cases {o : Owner ω} {x y : ConnectionRun ω} {a : ConnectionAction}
    (h : x.step o a = some y) :
    (∃ pending, y = { x with pending := pending } ∧ ∀ e, a ≠ .event e) ∨
    (∃ e, a = .event e ∧ e.settles ≤ x.pending ∧ (∀ i, e.arriving = some i → i ∉ x.handed) ∧
      y = x.after o e) := by
  cases a with
  | openStream => exact Or.inl ⟨_, (Option.some.inj h).symm, fun _ => nofun⟩
  | openFailed =>
      simp only [step] at h
      split at h
      · cases h
      · exact Or.inl ⟨_, (Option.some.inj h).symm, fun _ => nofun⟩
  | event e =>
      simp only [step] at h
      split at h
      · next he =>
          simp only [enabled, Bool.and_eq_true, decide_eq_true_eq] at he
          refine Or.inr ⟨e, rfl, he.1, fun i hi => ?_, (Option.some.inj h).symm⟩
          simpa [hi] using he.2
      · cases h

end ConnectionRun

/-- The machine of a connection that was just wrapped. -/
def connectionMachine {ω : Type*} (o : Owner ω) (init : ConnectionInit) (w : ω) :
    Machine (ConnectionRun ω) ConnectionAction where
  init x := x = { connection := .new init, world := w }
  step := ConnectionRun.step o

namespace ConnectionRun

variable {ω : Type*}

/-- What holds in every run: the class keeps its invariant, and an id the native
side has not handed over is neither wrapped nor released. -/
structure Valid (x : ConnectionRun ω) : Prop where
  connection : x.connection.Valid
  fresh : ∀ i, i ∉ x.handed → x.connection.streams.Fresh i
  peers : ∀ i, i ∈ x.peers → i ∈ x.handed

theorem Valid.arriving_fresh {x : ConnectionRun ω} (h : x.Valid) {e : ConnectionEvent}
    (hnew : ∀ i, e.arriving = some i → i ∉ x.handed) (i : ℕ) (hi : e.arriving = some i) :
    x.connection.streams.Fresh i :=
  h.fresh i (hnew i hi)

theorem Valid.after {x : ConnectionRun ω} (h : x.Valid) (o : Owner ω) {e : ConnectionEvent}
    (hnew : ∀ i, e.arriving = some i → i ∉ x.handed) : (x.after o e).Valid where
  connection := h.connection.handle o e (h.arriving_fresh hnew) x.world
  fresh i hi := by
    simp only [ConnectionRun.after, List.mem_append, Option.mem_toList, not_or] at hi
    exact ConnectionController.handle_fresh (h.fresh i hi.1) h.connection o e
      (h.arriving_fresh hnew) hi.2 x.world
  peers i hi := by
    simp only [ConnectionRun.after, List.mem_append, Option.mem_toList] at hi ⊢
    exact hi.imp (h.peers i) ConnectionEvent.arriving_of_peer

theorem valid_invariant (o : Owner ω) (init : ConnectionInit) (w : ω) :
    (connectionMachine o init w).Invariant Any Valid where
  init x hx := by
    obtain rfl := hx
    exact ⟨ConnectionController.valid_new init, fun i _ => Roster.Fresh.empty i, nofun⟩
  step x a y hx _ hy := by
    rcases step_cases hy with ⟨_, rfl, -⟩ | ⟨e, -, -, hnew, rfl⟩
    · exact ⟨hx.connection, hx.fresh, hx.peers⟩
    · exact hx.after o hnew

/-- A connection that was just wrapped, whose owner does nothing. -/
def bare : ConnectionRun Unit :=
  { connection := .new ⟨"peer", "alpn", .raw, none⟩, world := () }

/-- The machine that starts there. -/
abbrev bareMachine : Machine (ConnectionRun Unit) ConnectionAction :=
  connectionMachine ⟨id, id⟩ ⟨"peer", "alpn", .raw, none⟩ ()

end ConnectionRun

end Iroh
