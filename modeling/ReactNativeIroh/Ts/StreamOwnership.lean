import ReactNativeIroh.Ts.ConnectionRun

/-!
# Who closes the streams of a connection

Every native stream id handed to a connection is owned by it: the id is wrapped by
a stream of the roster, or it was given back with one call of `closeStream`.  When
the connection ends, the teardown closes every wrapped stream.

Both fail for an id that arrives out of time: a stream wrapped after the connection
has ended is closed by nobody, and an id whose wrapping throws is given back by
`onStream` but not by `openStream()`.  `Timely` excludes these steps, and
`closed_exactly_once` is about the runs that have none.
-/

namespace Iroh

open Backlog Ownership Transition

namespace ConnectionRun

variable {ω : Type*}

/-- The step hands over no id that the connection cannot own: it is still open, or
`onStream` fails to wrap the id and gives it back. -/
def Timely (x : ConnectionRun ω) : ConnectionAction → Prop
  | .event (.onStream _ true) => x.connection.isClosed = false
  | .event (.opened _ wraps) => x.connection.isClosed = false ∧ wraps = true
  | _ => True

/-- An owned id stays owned. -/
theorem owned_after {x : ConnectionRun ω} (hx : x.Valid) (o : Owner ω) {e : ConnectionEvent}
    (hnew : ∀ i, e.arriving = some i → i ∉ x.handed) {i : ℕ} (hi : i ∈ x.handed)
    (h : Owned x.connection.streams i) : Owned (x.after o e).connection.streams i := by
  refine Owned.evolves ?_
    (ConnectionController.handle_evolves hx.connection o e (hx.arriving_fresh hnew) x.world)
  cases e with
  | onStream j wraps =>
      have hij : i ≠ j := fun hij => hnew j rfl (hij ▸ hi)
      cases wraps with
      | false => exact h.release hij
      | true => exact h.adopt hij _
  | opened j wraps =>
      have hij : i ≠ j := fun hij => hnew j rfl (hij ▸ hi)
      cases wraps with
      | false => exact h
      | true => exact h.adopt hij _
  | onClose _ => exact h
  | close => exact h
  | stream _ _ => exact h
  | incomingNext => exact h
  | incomingReturn => exact h

/-- The id an event hands over is owned, unless `openStream()` fails to wrap it. -/
theorem owned_arriving {x : ConnectionRun ω} (hx : x.Valid) (o : Owner ω) {e : ConnectionEvent}
    (hnew : ∀ i, e.arriving = some i → i ∉ x.handed) {i : ℕ} (hi : e.arriving = some i)
    (hwraps : e ≠ .opened i false) : Owned (x.after o e).connection.streams i := by
  refine Owned.evolves ?_
    (ConnectionController.handle_evolves hx.connection o e (hx.arriving_fresh hnew) x.world)
  cases e with
  | onStream j wraps =>
      obtain rfl := Option.some.inj hi
      cases wraps with
      | false => exact owned_release (hx.fresh j (hnew j rfl))
      | true => exact owned_adopt j _ _
  | opened j wraps =>
      obtain rfl := Option.some.inj hi
      cases wraps with
      | false => exact absurd rfl hwraps
      | true => exact owned_adopt j _ _
  | onClose _ => cases hi
  | close => cases hi
  | stream _ _ => cases hi
  | incomingNext => cases hi
  | incomingReturn => cases hi

/-- What holds in every run whose steps are timely. -/
structure Owns (x : ConnectionRun ω) : Prop where
  owned : ∀ i ∈ x.handed, Owned x.connection.streams i
  ended : x.connection.isClosed = true →
    x.connection.streams.AllClosed StreamController.isClosed

theorem Owns.after {x : ConnectionRun ω} (hx : x.Valid) (h : x.Owns) (o : Owner ω)
    {e : ConnectionEvent} (hnew : ∀ i, e.arriving = some i → i ∉ x.handed)
    (htimely : x.Timely (.event e)) : (x.after o e).Owns where
  owned i hi := by
    simp only [ConnectionRun.after, List.mem_append, Option.mem_toList] at hi
    rcases hi with hi | hi
    · exact owned_after hx o hnew hi (h.owned i hi)
    · refine owned_arriving hx o hnew hi ?_
      rintro rfl
      exact Bool.false_ne_true htimely.2
  ended hclosed := by
    cases hopen : x.connection.isClosed with
    | false => exact ConnectionController.handle_allClosed hx.connection o e x.world hopen hclosed
    | true =>
        have he :=
          ConnectionController.handle_evolves hx.connection o e (hx.arriving_fresh hnew) x.world
        refine he.allClosed ?_
        cases e with
        | onStream j wraps =>
            cases wraps with
            | false => exact h.ended hopen
            | true => exact (Bool.false_ne_true (htimely.symm.trans hopen)).elim
        | opened j wraps =>
            exact (Bool.false_ne_true (htimely.1.symm.trans hopen)).elim
        | onClose _ => exact h.ended hopen
        | close => exact h.ended hopen
        | stream _ _ => exact h.ended hopen
        | incomingNext => exact h.ended hopen
        | incomingReturn => exact h.ended hopen

theorem owns_invariant (o : Owner ω) (init : ConnectionInit) (w : ω) :
    (connectionMachine o init w).Invariant Timely (fun x => x.Valid ∧ x.Owns) :=
  (valid_invariant o init w).guard.under
    (fun x hx => by
      obtain rfl := hx
      exact ⟨nofun, nofun⟩)
    (fun x a y hx h htimely hy => by
      rcases step_cases hy with ⟨_, rfl, -⟩ | ⟨e, rfl, -, hnew, rfl⟩
      · exact ⟨h.owned, h.ended⟩
      · exact h.after hx o hnew htimely)

/-- Once the connection has ended and no promise of `openStream()` is pending, every
id ever handed to it has been closed exactly once and no stream is open. -/
def TornDown (x : ConnectionRun ω) : Prop :=
  x.connection.isClosed = true → x.pending = 0 →
    ∀ i ∈ x.handed, x.connection.streams.ledger.released.count i = 1 ∧
      ∀ s, x.connection.streams.objects i = some s → s.isClosed = true

theorem closed_exactly_once (o : Owner ω) (init : ConnectionInit) (w : ω) {x : ConnectionRun ω}
    (hx : (connectionMachine o init w).Reachable Timely x) : x.TornDown := by
  intro hclosed _ i hi
  obtain ⟨hvalid, howns⟩ := (owns_invariant o init w).reachable hx
  refine ⟨?_, howns.ended hclosed i⟩
  cases hs : x.connection.streams.objects i with
  | none => exact (howns.owned i hi).resolve_left (by simp [hs])
  | some s => exact hvalid.connection.streams.released_once ⟨s, hs, howns.ended hclosed i s hs⟩

/-- A stream that was opened and one the peer opened, then the close. -/
def closedWithTwo : ConnectionRun Unit :=
  ((ConnectionRun.after ⟨id, id⟩ { bare with pending := 1 } (.opened 7 true)).after ⟨id, id⟩
    (.onStream 8 true)).after ⟨id, id⟩ .close

theorem closed_exactly_once_two : closedWithTwo.handed = [7, 8] ∧ closedWithTwo.TornDown := by
  refine ⟨rfl, closed_exactly_once ⟨id, id⟩ ⟨"peer", "alpn", .raw, none⟩ () ⟨bare, rfl, ?_⟩⟩
  refine .cons .openStream trivial rfl <| .cons (.event (.opened 7 true)) ⟨rfl, rfl⟩ rfl <|
    .cons (.event (.onStream 8 true)) rfl rfl <| .cons (.event .close) trivial rfl .refl

/-- A promise of `openStream()` settles after the connection was closed. -/
def openedLate : ConnectionRun Unit :=
  (ConnectionRun.after ⟨id, id⟩ { bare with pending := 1 } .close).after ⟨id, id⟩ (.opened 7 true)

/-- The stream of that promise is handed out open, and nothing closes it. -/
theorem opened_late_leaks : bareMachine.Reachable Any openedLate ∧ ¬ openedLate.TornDown := by
  refine ⟨Machine.reachable_of_run
    [.openStream, .event .close, .event (.opened 7 true)] rfl rfl, fun htorn => ?_⟩
  have hcount := (htorn rfl rfl 7 (by decide)).1
  exact absurd hcount (by decide)

end ConnectionRun

end Iroh
