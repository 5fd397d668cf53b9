import ReactNativeIroh.Ts.ConnectionRun

/-!
# Where the streams of the peer are

While a connection is open, every stream the peer opened should be with exactly one
consumer, waiting in the queue `incoming`, or closed.  The queue closes what it
discards.  But a push into a queue the consumer has closed does nothing at all, and
the stream it was to hold has been wrapped and is being read.  `Awaited` excludes
that step, and `peer_streams_placed` is about the runs without it.
-/

namespace Iroh

open Backlog Ownership Transition

namespace ConnectionRun

variable {ω : Type*}

/-- A stream the peer opens finds the queue of incoming streams open, or the
connection closed, or it cannot be wrapped. -/
def Awaited (x : ConnectionRun ω) : ConnectionAction → Prop
  | .event (.onStream _ true) =>
      x.connection.isClosed = false → x.connection.incomingStreams.isClosed = false
  | _ => True

/-- What holds in every run whose steps are awaited. -/
def Placing (x : ConnectionRun ω) : Prop :=
  x.connection.isClosed = false →
    Backlog.Placing StreamController.isClosed x.peers x.connection.incomingStreams
      x.connection.streams

theorem Placing.after {x : ConnectionRun ω} (hx : x.Valid) (h : x.Placing) (o : Owner ω)
    {e : ConnectionEvent} (hnew : ∀ i, e.arriving = some i → i ∉ x.handed)
    (hawaited : x.Awaited (.event e)) : (x.after o e).Placing := by
  intro hopen'
  have hopen : x.connection.isClosed = false := by
    rcases ConnectionController.handle_once o e x.connection x.world with ⟨hc, -⟩ | ⟨hc, -, -⟩
    · exact hc.symm.trans hopen'
    · exact hc
  have hfinished : ∀ error : Option IrohError,
      (ConnectionController.finish o error (x.connection, x.world)).1.isClosed ≠ false := by
    intro error
    rw [ConnectionController.finish_isClosed]
    exact Bool.false_ne_true.symm
  have hnewPeer : ∀ i, e.arriving = some i → i ∉ x.peers := fun i hi hp =>
    hnew i hi (hx.peers i hp)
  have hplacing := h hopen
  cases e with
  | onStream j wraps =>
      cases wraps with
      | false => exact hplacing.refuse (hx.fresh j (hnew j rfl)) (hnewPeer j rfl)
      | true =>
          exact hplacing.push (ConnectionController.streamOp_oneShot .close)
            ConnectionController.streamOp_close_closes (hawaited hopen)
            (hx.fresh j (hnew j rfl)) (hnewPeer j rfl) rfl x.world
  | opened j wraps =>
      have hpeers : (x.after o (.opened j wraps)).peers = x.peers := List.append_nil _
      rw [hpeers]
      cases wraps with
      | false => exact hplacing
      | true => exact hplacing.adopt (hx.fresh j (hnew j rfl)) (hnewPeer j rfl) rfl
  | onClose event => exact absurd hopen' (hfinished _)
  | close => exact absurd hopen' (hfinished none)
  | stream j e =>
      have hpeers : (x.after o (.stream j e)).peers = x.peers := List.append_nil _
      rw [hpeers]
      exact hplacing.evolves
        (.apply (ConnectionController.streamOp_oneShot e j) (x.connection.streams, x.world))
  | incomingNext =>
      have hpeers : (x.after o .incomingNext).peers = x.peers := List.append_nil _
      rw [hpeers]
      exact hplacing.next
  | incomingReturn =>
      have hpeers : (x.after o .incomingReturn).peers = x.peers := List.append_nil _
      rw [hpeers]
      exact hplacing.close (ConnectionController.streamOp_oneShot .close)
        ConnectionController.streamOp_close_closes none x.world

theorem placing_invariant (o : Owner ω) (init : ConnectionInit) (w : ω) :
    (connectionMachine o init w).Invariant Awaited (fun x => x.Valid ∧ x.Placing) :=
  (valid_invariant o init w).guard.under
    (fun x hx => by
      obtain rfl := hx
      exact fun _ => .empty _)
    (fun x a y hx h hawaited hy => by
      rcases step_cases hy with ⟨_, rfl, -⟩ | ⟨e, rfl, -, hnew, rfl⟩
      · exact h
      · exact h.after hx o hnew hawaited)

/-- While the connection is open, the queue is within the backlog and every stream
the peer opened is placed. -/
def PeersPlaced (x : ConnectionRun ω) : Prop :=
  x.connection.isClosed = false →
    x.connection.incomingStreams.buffer.length ≤ 64 ∧
      ∀ i ∈ x.peers, Placed x.connection.incomingStreams x.connection.streams i

theorem peer_streams_placed (o : Owner ω) (init : ConnectionInit) (w : ω) {x : ConnectionRun ω}
    (hx : (connectionMachine o init w).Reachable Awaited x) : x.PeersPlaced := by
  intro hopen
  obtain ⟨hvalid, hplacing⟩ := (placing_invariant o init w).reachable hx
  refine ⟨?_, fun i hi => (hplacing hopen).placed hi⟩
  have hb := hvalid.connection.incoming.bounded
  rw [hvalid.connection.backlog] at hb
  exact Capacity.le_of_not_exceeded (k := 64) (by decide) hb

/-- Two streams of the peer, and a consumer that asked once in between. -/
def twoIncoming : ConnectionRun Unit :=
  ((bare.after ⟨id, id⟩ (.onStream 7 true)).after ⟨id, id⟩ .incomingNext).after ⟨id, id⟩
    (.onStream 8 true)

theorem peer_streams_placed_two : twoIncoming.peers = [7, 8] ∧ twoIncoming.PeersPlaced := by
  refine ⟨rfl, peer_streams_placed ⟨id, id⟩ ⟨"peer", "alpn", .raw, none⟩ () ⟨bare, rfl, ?_⟩⟩
  refine .cons (.event (.onStream 7 true)) (fun _ => rfl) rfl <|
    .cons (.event .incomingNext) trivial rfl <|
    .cons (.event (.onStream 8 true)) (fun _ => rfl) rfl .refl

/-- The peer opens a stream after the consumer has left the loop. -/
def arrivedAfterBreak : ConnectionRun Unit :=
  (bare.after ⟨id, id⟩ .incomingReturn).after ⟨id, id⟩ (.onStream 7 true)

/-- Nobody can obtain that stream, and it is left open. -/
theorem arrived_after_break_leaks :
    bareMachine.Reachable Any arrivedAfterBreak ∧ ¬ arrivedAfterBreak.PeersPlaced := by
  refine ⟨Machine.reachable_of_run
    [.event .incomingReturn, .event (.onStream 7 true)] rfl rfl, fun hplaced => ?_⟩
  have hplace := (hplaced rfl).2 7 (by decide)
  revert hplace
  unfold Placed
  decide

end ConnectionRun

end Iroh
