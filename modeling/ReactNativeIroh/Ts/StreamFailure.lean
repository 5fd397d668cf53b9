import ReactNativeIroh.Ts.ConnectionRun

/-!
# Streams of a connection that fails

When a connection fails, the native side reports the failure of the connection and
of each of its streams, by independent callbacks and so in any order.  A stream
fails when its `closed` promise rejects and the iteration of its data throws.

The connection's own callback closes the streams it owns without an error.  So a
stream fails exactly when its callback comes first and its consumer had not left
the iteration before (`fails_iff`), and all of them fail exactly when this is so
for each (`all_fail_iff`).
-/

namespace Iroh

open Ownership Transition

/-- The stream ended as failed: `closed` is rejected, and a consumer that asks for
more data has seen the error before any other end. -/
def StreamController.Fails (s : StreamController) : Prop :=
  ∃ e, s.settlement.outcome = some (some e) ∧
    ∃ k, s.chunks.next.consumers.ends = .error e :: List.replicate k .done

namespace StreamController

variable {s : StreamController}

theorem not_fails_finished_none (h : s.isClosed = false) : ¬ (s.finished none).Fails := by
  rintro ⟨e, he, -⟩
  rw [finished_open h] at he
  cases he

/-- A consumer that asks an ended queue for more has seen an end. -/
theorem ends_next_ne_nil {q : MessageQueue Chunk IrohError} (hb : q.buffer = [])
    (hc : q.isClosed = true) : q.next.consumers.ends ≠ [] := by
  rcases MessageQueue.next_cases q with
    ⟨v, rest, hb', -⟩ | ⟨-, -, r, consumers, -, hr, he⟩ | ⟨-, ho, -⟩
  · rw [hb] at hb'; cases hb'
  · rw [he, WaiterQueue.ends_answer hr]
    simp
  · rw [hc] at ho; cases ho

/-- A stream that its own callback ends fails unless its consumer has left. -/
theorem fails_finished_iff (hv : s.Valid) (h : s.isClosed = false) (e : IrohError) :
    (s.finished (some e)).Fails ↔ s.chunks.isClosed = false := by
  have hvalid : (s.finished (some e)).Valid := hv.finish _ (some e) ()
  rw [finished_open h] at hvalid ⊢
  constructor
  · rintro ⟨e', he', k, hk⟩
    cases hc : s.chunks.isClosed with
    | false => rfl
    | true =>
        exfalso
        simp only [MessageQueue.close_closed {} hc] at hvalid hk
        have hends := hvalid.chunks.next.consumers.ends
        have ht : s.chunks.next.consumers.terminal = some none := by
          have hterm : s.chunks.next.terminal = s.chunks.terminal := MessageQueue.next_terminal _
          cases hq : s.chunks.terminal with
          | none =>
              rw [MessageQueue.isClosed, WaiterQueue.isSettled, ← MessageQueue.terminal, hq] at hc
              cases hc
          | some t =>
              cases t with
              | none => exact hterm.trans hq
              | some e => exact absurd hq (hv.unfailed h e)
        rw [ht] at hends
        obtain ⟨-, m, hm⟩ := hends
        rw [hm] at hk
        cases m <;> cases hk
  · intro hc
    refine ⟨e, rfl, ?_⟩
    have hterm := MessageQueue.close_terminal {} hv.chunks hc (some e) ()
    have hb := hvalid.chunks.drained (MessageQueue.close_isClosed {} _ _ _)
    have hne := ends_next_ne_nil hb (MessageQueue.close_isClosed {} _ _ _)
    have hends := hvalid.chunks.next.consumers.ends
    rw [show (MessageQueue.close {} (some e) (s.chunks, ())).1.next.consumers.terminal =
      some (some e) from (MessageQueue.next_terminal _).trans hterm] at hends
    rcases hends with ⟨-, hnil⟩ | ⟨-, k, hk⟩
    · exact absurd hnil hne
    · exact ⟨k, hk⟩

end StreamController

namespace ConnectionController

variable {ω : Type*}

/-- A callback in flight: the connection's own, or that of one of its streams. -/
def failure (detail : Option ℕ → String) : Option ℕ → ConnectionEvent
  | none => .onClose ("error " ++ detail none)
  | some i => .stream i (.onClose ("error " ++ detail (some i)))

/-- The callbacks arrive in the order given. -/
def failAll (o : Owner ω) (detail : Option ℕ → String) (order : List (Option ℕ))
    (p : ConnectionController × ω) : ConnectionController × ω :=
  order.foldl (fun p x => handle o (failure detail x) p) p

/-- The stream ends as failed. -/
def StreamFails (c : ConnectionController) (i : ℕ) : Prop :=
  ∃ s, c.streams.objects i = some s ∧ s.Fails

section

variable (detail : Option ℕ → String) {c : ConnectionController} {i : ℕ} {s : StreamController}

theorem Valid.failure (h : c.Valid) (o : Owner ω) (x : Option ℕ) (w : ω) :
    (ConnectionController.handle o (failure detail x) (c, w)).1.Valid :=
  h.handle o _ (by cases x <;> exact nofun) w

/-- The callback of a stream ends it with its error. -/
theorem failure_self (hs : c.streams.objects i = some s) (o : Owner ω) (w : ω) :
    (handle o (failure detail (some i)) (c, w)).1.streams.objects i =
      some (s.finished (some (IrohError.fromMessage (detail (some i))))) := by
  refine (Roster.apply_self (r := c.streams) hs w).trans (congrArg some ?_)
  rw [streamOp, StreamController.handle, parseCloseEvent_error, StreamController.finish_fst]

/-- The callback of another stream changes neither the stream nor the connection. -/
theorem failure_other {j : ℕ} (hj : j ≠ i) (o : Owner ω) (w : ω) :
    (handle o (failure detail (some j)) (c, w)).1.streams.objects i = c.streams.objects i ∧
      (handle o (failure detail (some j)) (c, w)).1.isClosed = c.isClosed :=
  ⟨Roster.apply_of_ne hj.symm w, rfl⟩

/-- The callback of the connection closes the stream without an error. -/
theorem failure_none (hv : c.Valid) (hopen : c.isClosed = false)
    (hs : c.streams.objects i = some s) (o : Owner ω) (w : ω) :
    (handle o (failure detail none) (c, w)).1.streams.objects i = some (s.finished none) := by
  rw [failure, handle, finish_open o _ hopen]
  exact tornDown_object _ hv.streams hs w

/-- A stream that has ended is not changed any more. -/
theorem failure_ended (hv : c.Valid) (hs : c.streams.objects i = some s) (hc : s.isClosed = true)
    (o : Owner ω) (x : Option ℕ) (w : ω) :
    (handle o (failure detail x) (c, w)).1.streams.objects i = some s := by
  cases x with
  | none =>
      cases hopen : c.isClosed with
      | true => rw [failure, handle, finish_closed o _ hopen]; exact hs
      | false =>
          rw [failure_none detail hv hopen hs, StreamController.finished_closed hc]
  | some j =>
      by_cases hj : j = i
      · subst hj
        rw [failure_self detail hs, StreamController.finished_closed hc]
      · exact (failure_other detail hj o w).1.trans hs

theorem failAll_ended (hv : c.Valid) (hs : c.streams.objects i = some s) (hc : s.isClosed = true)
    (o : Owner ω) (order : List (Option ℕ)) (w : ω) :
    (failAll o detail order (c, w)).1.streams.objects i = some s := by
  induction order generalizing c w with
  | nil => exact hs
  | cons x order ih =>
      exact ih (hv.failure detail o x w) (failure_ended detail hv hs hc o x w) _

/-- A stream ends with whichever of the two callbacks comes first. -/
theorem failAll_object (hv : c.Valid) (hopen : c.isClosed = false)
    (hs : c.streams.objects i = some s) (o : Owner ω) {order : List (Option ℕ)}
    (hi : some i ∈ order) (hn : none ∈ order) (w : ω) :
    (failAll o detail order (c, w)).1.streams.objects i =
      some (s.finished (if order.idxOf (some i) < order.idxOf none
        then some (IrohError.fromMessage (detail (some i))) else none)) := by
  induction order generalizing c w with
  | nil => cases hn
  | cons x order ih =>
      have hv' := hv.failure detail o x w
      cases x with
      | none =>
          rw [if_neg (by simp)]
          exact failAll_ended detail hv' (failure_none detail hv hopen hs o w)
            (StreamController.finished_isClosed s none) o order _
      | some j =>
          by_cases hj : j = i
          · subst hj
            rw [if_pos (by simp)]
            exact failAll_ended detail hv' (failure_self detail hs o w)
              (StreamController.finished_isClosed s _) o order _
          · obtain ⟨hsame, hopen'⟩ := failure_other detail (c := c) hj o w
            have hne : some j ≠ some i := fun h => hj (Option.some.inj h)
            rw [show (some j :: order).idxOf (some i) = order.idxOf (some i) + 1 by
                simp [hj],
              show (some j :: order).idxOf none = order.idxOf none + 1 by simp]
            simp only [Nat.add_lt_add_iff_right]
            exact ih hv' (hopen'.trans hopen) (hsame.trans hs)
              ((List.mem_cons.mp hi).resolve_left hne.symm)
              ((List.mem_cons.mp hn).resolve_left nofun) _

end

end ConnectionController

namespace ConnectionRun

variable {ω : Type*}

/-- Whichever order the callbacks of a failed connection and of its open streams
arrive in, all of these streams fail exactly when each one's callback precedes the
connection's and no consumer has left the iteration of its stream before. -/
theorem all_fail_iff (o : Owner ω) (init : ConnectionInit) (w : ω) {x : ConnectionRun ω}
    (hx : (connectionMachine o init w).Reachable Any x) (hopen : x.connection.isClosed = false)
    (detail : Option ℕ → String) (order : List (Option ℕ))
    (horder : order.Perm (none :: x.connection.openStreams.map some)) :
    (∀ i ∈ x.connection.openStreams,
      (ConnectionController.failAll o detail order (x.connection, x.world)).1.StreamFails i) ↔
    ∀ i ∈ x.connection.openStreams, order.idxOf (some i) < order.idxOf none ∧
      ∃ s, x.connection.streams.objects i = some s ∧ s.chunks.isClosed = false := by
  have hv := ((valid_invariant o init w).reachable hx).connection
  have hnone : none ∈ order := horder.mem_iff.mpr (by simp)
  refine forall₂_congr fun i hi => ?_
  have hsome : some i ∈ order := horder.mem_iff.mpr (by simpa using hi)
  obtain ⟨s, hs, hso⟩ := (hv.streams.live_iff i).1 hi
  have hfinal := ConnectionController.failAll_object detail hv hopen hs o hsome hnone
    x.world
  by_cases hlt : order.idxOf (some i) < order.idxOf none
  · rw [if_pos hlt] at hfinal
    have hiff := StreamController.fails_finished_iff (hv.each i s hs) hso
      (IrohError.fromMessage (detail (some i)))
    constructor
    · rintro ⟨s', hs', hf⟩
      obtain rfl := Option.some.inj (hfinal.symm.trans hs')
      exact ⟨hlt, s, hs, hiff.1 hf⟩
    · rintro ⟨-, s', hs', hc⟩
      obtain rfl := Option.some.inj (hs.symm.trans hs')
      exact ⟨_, hfinal, hiff.2 hc⟩
  · rw [if_neg hlt] at hfinal
    constructor
    · rintro ⟨s', hs', hf⟩
      obtain rfl := Option.some.inj (hfinal.symm.trans hs')
      exact absurd hf (StreamController.not_fails_finished_none hso)
    · rintro ⟨hlt', -⟩
      exact absurd hlt' hlt

/-- A connection whose peer has opened one stream. -/
def oneStream : ConnectionRun Unit := bare.after ⟨id, id⟩ (.onStream 7 true)

theorem oneStream_reachable : bareMachine.Reachable Any oneStream :=
  Machine.reachable_of_run [.event (.onStream 7 true)] rfl rfl

theorem all_fail_in_order :
    oneStream.connection.openStreams = [7] ∧
      ∀ i ∈ oneStream.connection.openStreams,
        (ConnectionController.failAll ⟨id, id⟩ (fun _ => "reset") [some 7, none]
          (oneStream.connection, oneStream.world)).1.StreamFails i := by
  have hlive : oneStream.connection.openStreams = [7] := by decide
  refine ⟨hlive, (all_fail_iff ⟨id, id⟩ ⟨"peer", "alpn", .raw, none⟩ () oneStream_reachable rfl
    (fun _ => "reset") [some 7, none] (by decide)).2 fun i hi => ?_⟩
  rw [hlive, List.mem_singleton] at hi
  subst hi
  exact ⟨by decide, _, rfl, rfl⟩

/-- The connection's callback arrives first, and its stream ends in order. -/
theorem failure_reported_as_end :
    bareMachine.Reachable Any oneStream ∧
      oneStream.connection.isClosed = false ∧
      [none, some 7].Perm (none :: oneStream.connection.openStreams.map some) ∧
      ¬ ∀ i ∈ oneStream.connection.openStreams,
        (ConnectionController.failAll ⟨id, id⟩ (fun _ => "reset") [none, some 7]
          (oneStream.connection, oneStream.world)).1.StreamFails i := by
  refine ⟨oneStream_reachable, rfl, by decide, fun hall => ?_⟩
  obtain ⟨s, hs, e, he, -⟩ := hall 7 (by decide)
  have hend : ((ConnectionController.failAll ⟨id, id⟩ (fun _ => "reset") [none, some 7]
      (oneStream.connection, oneStream.world)).1.streams.objects 7).map
        (fun s => s.settlement.outcome) = some (some none) := by decide
  rw [hs, Option.map_some, he] at hend
  cases hend

end ConnectionRun

end Iroh
