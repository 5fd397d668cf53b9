import Mathlib.Data.List.TakeWhile
import ReactNativeIroh.Ts.QueueContents
import ReactNativeIroh.Ts.StreamBreak
import ReactNativeIroh.Ts.StreamCourse

/-!
# A stream that outlives its consumer

A consumer that breaks out of its loop ends the queue of the stream, and the stream goes on
until the native side or the host closes it.  What comes in the meantime reaches nobody.

So the consumer has what the channel gave it before it broke out, and the stream ends as its
course did until then, or by the first event afterwards that closes it (`outlived`).
-/

namespace Iroh

open Ownership

/-- What happened before the consumer broke out of its loop. -/
def unbroken (es : List StreamEvent) : List StreamEvent :=
  es.takeWhile fun e => decide (e ≠ .return)

theorem return_notMem_unbroken (es : List StreamEvent) : .return ∉ unbroken es := by
  intro hmem
  simpa using List.mem_takeWhile_imp hmem

theorem unbroken_of_notMem {es : List StreamEvent} (h : .return ∉ es) : unbroken es = es := by
  refine List.takeWhile_eq_self_iff.mpr fun e he => ?_
  rw [decide_eq_true_eq]
  rintro rfl
  exact h he

theorem unbroken_append {es : List StreamEvent} (h : .return ∉ es) (late : List StreamEvent) :
    unbroken (es ++ .return :: late) = es := by
  have hes : es.takeWhile (fun e => decide (e ≠ .return)) = es := unbroken_of_notMem h
  rw [unbroken, List.takeWhile_append, if_pos (congrArg List.length hes),
    List.takeWhile_cons_of_neg (by simp), List.append_nil]

theorem unbroken_prefix {es front : List StreamEvent} (h : front <+: es) :
    unbroken front <+: unbroken es := by
  obtain ⟨late, rfl⟩ := h
  rw [unbroken, unbroken, List.takeWhile_append]
  split
  · exact (List.takeWhile_prefix _).trans (List.prefix_append _ _)
  · exact List.prefix_rfl

/-- The consumer broke out no earlier and no later. -/
theorem unbroken_between {es front : List StreamEvent} (h : unbroken es <+: front)
    (h' : front <+: es) : unbroken front = unbroken es := by
  have hle : unbroken front <+: unbroken es := unbroken_prefix h'
  have hge : unbroken (unbroken es) <+: unbroken front := unbroken_prefix h
  rw [unbroken_of_notMem (return_notMem_unbroken es)] at hge
  exact hle.eq_of_length_le hge.length_le

/-- How an event closes a stream whose queue has ended. -/
def StreamEvent.closes? : StreamEvent → Option (Option IrohError)
  | .onClose event => some (parseCloseEvent event)
  | .close => some none
  | .onData _ | .next | .return => none

namespace StreamController

variable {ω : Type*} {s t : StreamController} {outcome : Option (Option IrohError)}

/-- The stream goes on without its consumer, which gets nothing more. -/
structure GoesOn (s t : StreamController) (outcome : Option (Option IrohError)) : Prop where
  valid : t.Valid
  ended : t.chunks.isClosed = true
  delivered : t.chunks.delivered = s.chunks.delivered
  /-- The stream is closed once. -/
  outcome : t.settlement.outcome = s.settlement.outcome.orElse fun _ => outcome

theorem GoesOn.refl (hv : s.Valid) (hc : s.chunks.isClosed = true) : GoesOn s s none where
  valid := hv
  ended := hc
  delivered := rfl
  outcome := by cases s.settlement.outcome <;> rfl

/-- An ended queue holds what it has delivered. -/
theorem held_of_closed (hv : s.Valid) (hc : s.chunks.isClosed = true) :
    s.chunks.held = s.chunks.delivered := by
  rw [MessageQueue.held, hv.chunks.drained hc, List.append_nil]

/-- Breaking out ends the queue, and not the stream. -/
theorem goesOn_return (hv : s.Valid) (o : Owner ω) (w : ω) :
    GoesOn s (handle o .return (s, w)).1 none := by
  have hvalid := hv.handle o .return w
  have hended : (handle o .return (s, w)).1.chunks.isClosed = true :=
    MessageQueue.close_isClosed {} s.chunks none w
  refine ⟨hvalid, hended, ?_, ?_⟩
  · rw [← held_of_closed hvalid hended]
    cases hc : s.chunks.isClosed with
    | true =>
        rw [handle, MessageQueue.return, MessageQueue.close_closed {} hc, held_of_closed hv hc]
    | false => exact MessageQueue.close_held {} hc hv.chunks.consumers none w
  · show s.settlement.outcome = _
    cases s.settlement.outcome <;> rfl

theorem goesOn_finish (hv : s.Valid) (hc : s.chunks.isClosed = true) (o : Owner ω)
    (error : Option IrohError) (w : ω) : GoesOn s (finish o error (s, w)).1 (some error) := by
  have hvalid := hv.finish o error w
  cases hs : s.isClosed with
  | true =>
      rw [finish_closed o error hs]
      rw [isClosed, Settlement.isSettled_eq] at hs
      obtain ⟨r, hr⟩ := Option.isSome_iff_exists.mp hs
      exact ⟨hv, hc, rfl, by rw [hr, Option.orElse_some]⟩
  | false =>
      have hchunks : (MessageQueue.close {} error (s.chunks, w)).1 = s.chunks := by
        rw [MessageQueue.close_closed {} hc]
      rw [finish_open o error hs, hchunks] at hvalid ⊢
      rw [isClosed, Settlement.isSettled_eq] at hs
      have hopen : s.settlement.outcome = none := by simpa using hs
      exact ⟨hvalid, hc, rfl, by rw [hopen]; rfl⟩

theorem goesOn_handle (hv : s.Valid) (hc : s.chunks.isClosed = true) (o : Owner ω)
    (e : StreamEvent) (w : ω) : GoesOn s (handle o e (s, w)).1 e.closes? := by
  cases e with
  | onData chunk =>
      have hdata : onData o chunk (s, w) = (s, w) := by
        rcases onData_cases o chunk s w with ⟨-, he⟩ | ⟨ho, -⟩ | ⟨ho, -⟩ | ⟨ho, -⟩
        · exact he
        all_goals
          rw [hc] at ho
          cases ho
      rw [handle, hdata]
      exact .refl hv hc
  | onClose event => exact goesOn_finish hv hc o (parseCloseEvent event) w
  | close => exact goesOn_finish hv hc o none w
  | next =>
      have hvalid := hv.handle o .next w
      have hended : s.chunks.next.isClosed = true := (MessageQueue.next_isClosed _).trans hc
      refine ⟨hvalid, hended, ?_, (GoesOn.refl hv hc).outcome⟩
      rw [← held_of_closed hvalid hended, ← held_of_closed hv hc]
      exact MessageQueue.next_held s.chunks
  | «return» => exact goesOn_return hv o w

theorem GoesOn.trans {u : StreamController} {outcome' : Option (Option IrohError)}
    (h : GoesOn s t outcome) (h' : GoesOn t u outcome') :
    GoesOn s u (outcome.orElse fun _ => outcome') where
  valid := h'.valid
  ended := h'.ended
  delivered := h'.delivered.trans h.delivered
  outcome := by
    rw [h'.outcome, h.outcome]
    cases s.settlement.outcome <;> cases outcome <;> rfl

theorem goesOn_handleAll (hv : s.Valid) (hc : s.chunks.isClosed = true) (o : Owner ω)
    (es : List StreamEvent) (w : ω) :
    GoesOn s (handleAll o es (s, w)).1 (es.findSome? StreamEvent.closes?) := by
  induction es generalizing s w with
  | nil => exact .refl hv hc
  | cons e es ih =>
      have hstep := goesOn_handle hv hc o e w
      have hrun := hstep.trans (ih hstep.valid hstep.ended (handle o e (s, w)).2)
      rw [List.findSome?_cons]
      cases hclose : e.closes? with
      | none =>
          rw [hclose] at hrun
          exact hrun
      | some r =>
          rw [hclose] at hrun
          exact hrun

/-- The consumer has what the channel gave it before it broke out, and the stream ends as its
course did until then, or by what closes it afterwards. -/
structure Outlived (capacity : Capacity) (es late : List StreamEvent) (s : StreamController) :
    Prop where
  split : es = unbroken es ++ late
  delivered : s.chunks.delivered = (Course.run capacity (unbroken es)).channel.received
  outcome : s.settlement.outcome = (Course.run capacity (unbroken es)).outcome.orElse fun _ =>
    late.findSome? StreamEvent.closes?

theorem outlived (o : Owner ω) (capacity : Option Number) (es : List StreamEvent) (w : ω) :
    ∃ late, Outlived (.ofOption capacity) es late (streamed o capacity es w).1 := by
  by_cases hmem : .return ∈ es
  · obtain ⟨front, late, rfl, hnot⟩ := List.eq_append_cons_of_mem hmem
    have hfollows := streamed_follows o capacity hnot w
    have hbreak := goesOn_return hfollows.valid o (streamed o capacity front w).2
    have hlate := hbreak.trans (goesOn_handleAll hbreak.valid hbreak.ended o late
      (handle o .return (streamed o capacity front w)).2)
    have hrun : streamed o capacity (front ++ .return :: late) w =
        handleAll o late (handle o .return (streamed o capacity front w)) := by
      rw [streamed, handleAll, List.foldl_append]
      rfl
    refine ⟨.return :: late, by rw [unbroken_append hnot], ?_, ?_⟩
    · rw [unbroken_append hnot, ← hfollows.delivered, hrun]
      exact hlate.delivered
    · rw [unbroken_append hnot, ← hfollows.settled, hrun]
      exact hlate.outcome
  · have hfollows := streamed_follows o capacity hmem w
    have hun := unbroken_of_notMem hmem
    refine ⟨[], by rw [hun, List.append_nil], ?_, ?_⟩
    · rw [hun]
      exact hfollows.delivered
    · rw [hun, hfollows.settled]
      cases (Course.run (.ofOption capacity) es).outcome <;> rfl

end StreamController

end Iroh
