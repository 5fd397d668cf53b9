import ReactNativeIroh.Core.CancelProtocol
import ReactNativeIroh.Lib.Precedence

/-!
# What a transfer does after its result

The select that takes the cancel signal requests an abort of the inner task, and does not
wait for it to end.  So `on_complete` may be invoked while the inner task is still being
polled, or while the destination is being removed or written, and both go on.

A transfer does nothing visible after its result in a run that completes only quiet
transfers (`CompletesQuietly`).
-/

namespace Iroh.Core

open Transition

variable {β : Type*}

namespace TransferEvent

/-- `on_progress` is invoked, or the destination is changed. -/
def isEffect : TransferEvent → Bool
  | .progress _ | .removed | .written => true
  | _ => false

def isCompleted : TransferEvent → Bool
  | .completed _ => true
  | _ => false

def isEmitted : TransferEvent → Bool
  | .emitted _ => true
  | _ => false

def isSettled : TransferEvent → Bool
  | .settled _ => true
  | _ => false

end TransferEvent

/-- The destination is being removed or written. -/
def FileOp.touches : FileOp → Bool
  | .running .removing | .running .exporting => true
  | _ => false

/-- The inner task has ended or is about to be dropped, and the destination is neither
being removed nor being written. -/
structure InnerTask.Quiet (k : InnerTask) : Prop where
  idle : k.phase.isLive = true → k.polled = false ∧ k.aborted = true
  op : k.op.touches = false

instance (k : InnerTask) : Decidable k.Quiet :=
  decidable_of_iff
    ((k.phase.isLive = true → k.polled = false ∧ k.aborted = true) ∧ k.op.touches = false)
    ⟨fun h => ⟨h.1, h.2⟩, fun h => ⟨h.idle, h.op⟩⟩

/-- A quiet task can only be dropped. -/
theorem InnerTask.Quiet.step {endpoint : ℕ} {dest : Path} {content : β} {d d' : Download β}
    {a : InnerAction} {events : List TransferEvent}
    (h : DownloadSteps endpoint dest content d a d' events) (hq : d.inner.Quiet) :
    events = [] ∧ d'.inner.Quiet := by
  have hpolled (hl : d.inner.phase.isLive = true) (hp : d.inner.polled = true) : False := by
    rw [(hq.idle hl).1] at hp
    cases hp
  cases h with
  | poll hl hp ha =>
      rw [(hq.idle hl).2] at ha
      cases ha
  | yield hw hp =>
      refine absurd hp fun hp => hpolled ?_ hp
      cases hk : d.inner.phase with
      | dialing => rfl
      | streaming finished => rfl
      | exporting => rfl
      | _ =>
          rw [hk] at hw
          cases hw
  | drop hl hp ha => exact ⟨rfl, nofun, hq.op⟩
  | opened hk hp => exact (hpolled (by rw [hk]; rfl) hp).elim
  | closed hk hp => exact (hpolled (by rw [hk]; rfl) hp).elim
  | connected hk hp => exact (hpolled (by rw [hk]; rfl) hp).elim
  | unconnected hk hp => exact (hpolled (by rw [hk]; rfl) hp).elim
  | next hk hp => exact (hpolled (by rw [hk]; rfl) hp).elim
  | due hk hp ho => exact (hpolled (by rw [hk]; rfl) hp).elim
  | kept hk hp ho => exact (hpolled (by rw [hk]; rfl) hp).elim
  | emit hk hp => exact (hpolled (by rw [hk]; rfl) hp).elim
  | resume hk hp ho => exact (hpolled (by rw [hk]; rfl) hp).elim
  | panic hl hp => exact (hpolled hl hp).elim
  | effect ho he =>
      rename_i phase phase' fs
      refine ⟨?_, hq.idle, rfl⟩
      have := hq.op
      rw [ho] at this
      cases phase with
      | inspecting => rfl
      | removing => cases this
      | exporting => cases this
      | done => cases he
      | failed e => cases he

/-- The inner task does not settle the promise. -/
theorem Download.settled_step {endpoint : ℕ} {dest : Path} {content : β} {d d' : Download β}
    {a : InnerAction} {events : List TransferEvent}
    (h : DownloadSteps endpoint dest content d a d' events) :
    ∀ e ∈ events, e.isCompleted = false ∧ e.isSettled = false := fun e he => by
  cases e with
  | completed | settled => cases h.events _ he
  | _ => exact ⟨rfl, rfl⟩

/-- No visible effect follows the result, and no progress event the settlement. -/
structure Quiescent (log : List TransferEvent) : Prop where
  effects : NoneAfter (fun e : TransferEvent => e.isEffect = true)
    (fun e => e.isCompleted = true) log
  events : NoneAfter (fun e : TransferEvent => e.isEmitted = true)
    (fun e => e.isSettled = true) log

namespace Transfer

/-- The invariant behind it. -/
structure Quieted (t : Transfer β) : Prop where
  quiescent : Quiescent t.log
  quiet : t.outer.completed.isSome = true → t.inner.Quiet
  completed : t.outer.completed = none → ∀ e ∈ t.log, e.isCompleted = false
  settled : (∀ r, t.outer ≠ .done r) → ∀ e ∈ t.log, e.isSettled = false

theorem Quieted.notCompleted {t : Transfer β} (h : t.Quieted) (ho : t.outer.completed = none) :
    ∀ e ∈ t.log, ¬ e.isCompleted = true := by
  intro e he
  simp [h.completed ho e he]

theorem Quieted.notSettled {t : Transfer β} (h : t.Quieted) (ho : ∀ r, t.outer ≠ .done r) :
    ∀ e ∈ t.log, ¬ e.isSettled = true := by
  intro e he
  simp [h.settled ho e he]

/-- Before the result, any event of the inner task may be recorded. -/
theorem Quieted.record {t : Transfer β} {events : List TransferEvent} (h : t.Quieted)
    (ho : t.outer.completed = none)
    (he : ∀ e ∈ events, e.isCompleted = false ∧ e.isSettled = false) (k : InnerTask)
    (c : Coalescer) :
    Quieted { t with inner := k, coalescer := c, log := t.log ++ events } where
  quiescent := by
    have hd (r : Outcome) : t.outer ≠ .done r := by
      intro hd
      rw [hd] at ho
      cases ho
    refine ⟨h.quiescent.effects.appendBefore (h.notCompleted ho) ?_,
      h.quiescent.events.appendBefore (h.notSettled hd) ?_⟩
    · intro e hmem
      simp [(he e hmem).1]
    · intro e hmem
      simp [(he e hmem).2]
  quiet hs := by
    rw [ho] at hs
    cases hs
  completed _ e hmem := by
    obtain hmem | hmem := List.mem_append.mp hmem
    · exact h.completed ho e hmem
    · exact (he e hmem).1
  settled hd e hmem := by
    obtain hmem | hmem := List.mem_append.mp hmem
    · exact h.settled hd e hmem
    · exact (he e hmem).2

theorem Quieted.innerStep {t t' : Transfer β} {fs fs' : FileSystem β} {a : InnerAction}
    (h : t.Quieted) (hs : t.innerStep fs a = some (t', fs')) : t'.Quieted := by
  obtain ⟨d, events, hd, rfl, -⟩ := innerStep_eq_some hs
  cases ho : t.outer.completed with
  | none => exact h.record ho (Download.settled_step hd) _ _
  | some r =>
      obtain ⟨rfl, hq⟩ := InnerTask.Quiet.step hd (h.quiet (by rw [ho]; rfl))
      rw [List.append_nil]
      exact ⟨⟨h.quiescent.effects, h.quiescent.events⟩, fun _ => hq, h.completed, h.settled⟩

/-- An event of the outer task that is no effect. -/
theorem Quieted.append {t : Transfer β} {e : TransferEvent} {outer : OuterPhase} (h : t.Quieted)
    (he : e.isEffect = false) (hd : ∀ r, t.outer ≠ .done r)
    (hquiet : outer.completed.isSome = true → t.inner.Quiet)
    (hcompleted : outer.completed = none → t.outer.completed = none ∧ e.isCompleted = false)
    (hsettled : (∀ r, outer ≠ .done r) → e.isSettled = false)
    (hemit : e.isEmitted = true → e.isSettled = false) :
    Quieted { t with outer, log := t.log ++ [e] } where
  quiescent := by
    refine ⟨h.quiescent.effects.append ?_, ?_⟩
    · intro b hb
      rw [List.mem_singleton.mp hb, he]
      nofun
    · cases hem : e.isEmitted with
      | true =>
          refine h.quiescent.events.appendBefore (h.notSettled hd) ?_
          intro b hb
          rw [List.mem_singleton.mp hb, hemit hem]
          nofun
      | false =>
          refine h.quiescent.events.append ?_
          intro b hb
          rw [List.mem_singleton.mp hb, hem]
          nofun
  quiet := hquiet
  completed hc b hb := by
    obtain hb | hb := List.mem_append.mp hb
    · exact h.completed (hcompleted hc).1 b hb
    · rw [List.mem_singleton.mp hb]
      exact (hcompleted hc).2
  settled hs b hb := by
    obtain hb | hb := List.mem_append.mp hb
    · exact h.settled hd b hb
    · rw [List.mem_singleton.mp hb]
      exact hsettled hs

theorem Quieted.outerStep {t t' : Transfer β} {a : OuterAction} (h : t.Quieted)
    (hs : OuterSteps t a t') (hg : a = .complete → t.inner.Quiet) : t'.Quieted := by
  cases hs with
  | poll ho =>
      exact ⟨h.quiescent, nofun, fun _ => h.completed (by rw [ho]; rfl),
        fun _ => h.settled (by rw [ho]; nofun)⟩
  | cancelled ho hsig =>
      exact ⟨h.quiescent, nofun, fun _ => h.completed (by rw [ho]; rfl),
        fun _ => h.settled (by rw [ho]; nofun)⟩
  | joined ho hj =>
      exact ⟨h.quiescent, nofun, fun _ => h.completed (by rw [ho]; rfl),
        fun _ => h.settled (by rw [ho]; nofun)⟩
  | complete ho =>
      exact h.append rfl (by rw [ho]; nofun) (fun _ => hg rfl) nofun (fun _ => rfl) nofun
  | flushed ho hf =>
      exact ⟨h.quiescent, fun _ => h.quiet (by rw [ho]; rfl), nofun,
        fun _ => h.settled (by rw [ho]; nofun)⟩
  | nothing ho hf =>
      exact ⟨h.quiescent, fun _ => h.quiet (by rw [ho]; rfl), nofun,
        fun _ => h.settled (by rw [ho]; nofun)⟩
  | forward ho =>
      exact h.append rfl (by rw [ho]; nofun) (fun _ => h.quiet (by rw [ho]; rfl)) nofun
        (fun _ => rfl) (fun _ => rfl)
  | settle ho =>
      exact h.append rfl (by rw [ho]; nofun) (fun _ => h.quiet (by rw [ho]; rfl)) nofun
        (fun hd => absurd rfl (hd _)) nofun

theorem Quieted.start {t t' : Transfer β} (h : t.Quieted) (hs : t.start = some t') :
    t'.Quieted := by
  unfold Transfer.start at hs
  split at hs
  · cases hs
  · obtain rfl := Option.some.inj hs
    have he : ∀ e ∈ [TransferEvent.started t.handle], e.isEffect = false ∧ e.isEmitted = false ∧
        e.isCompleted = false ∧ e.isSettled = false := by
      intro e he
      rw [List.mem_singleton.mp he]
      exact ⟨rfl, rfl, rfl, rfl⟩
    refine ⟨⟨h.quiescent.effects.append ?_, h.quiescent.events.append ?_⟩, h.quiet, ?_, ?_⟩
    · intro e hmem
      simp [(he e hmem).1]
    · intro e hmem
      simp [(he e hmem).2.1]
    · intro ho e hmem
      obtain hmem | hmem := List.mem_append.mp hmem
      · exact h.completed ho e hmem
      · exact (he e hmem).2.2.1
    · intro hd e hmem
      obtain hmem | hmem := List.mem_append.mp hmem
      · exact h.settled hd e hmem
      · exact (he e hmem).2.2.2

end Transfer

/-- The transfer whose `on_complete` the step invokes. -/
def TransferAction.completes : TransferAction β → Option ℕ
  | .outer i .complete => some i
  | _ => none

namespace TransferRun

variable {x : TransferRun β} {i : ℕ} {t : Transfer β}

/-- `on_complete` is only invoked when the inner task is quiet. -/
def CompletesQuietly (x : TransferRun β) (a : TransferAction β) : Prop :=
  ∀ i ∈ a.completes, ∀ t ∈ x.transfers i, t.inner.Quiet

instance (x : TransferRun β) (a : TransferAction β) : Decidable (CompletesQuietly x a) :=
  inferInstanceAs (Decidable (∀ i ∈ a.completes, ∀ t ∈ x.transfers i, t.inner.Quiet))

theorem quieted_invariant : (transferMachine β).Invariant CompletesQuietly fun x =>
    ∀ i t, x.transfers i = some t → t.Quieted := by
  refine transfers_invariant ?_ ?_ ?_ ?_
  · intro handle endpoint dest content
    exact ⟨⟨.nil, .nil⟩, nofun, nofun, nofun⟩
  · intro x i t a t' fs hi ht hG hm
    cases hm with
    | start h => exact ht.start h
    | inner h => exact ht.innerStep h
    | outer h => exact ht.outerStep h fun ha => hG i (by rw [ha]; rfl) t hi
  · intro t result ht ho
    exact ⟨ht.quiescent, nofun, fun _ => ht.completed (by rw [ho]; rfl),
      fun _ => ht.settled (by rw [ho]; nofun)⟩
  · intro t b s ht
    exact ⟨ht.quiescent, ht.quiet, ht.completed, ht.settled⟩

/-- A run that completes only quiet transfers does nothing visible after a result. -/
theorem quiescent (hx : (transferMachine β).Reachable CompletesQuietly x)
    (ht : x.transfers i = some t) : Quiescent t.log :=
  (quieted_invariant.reachable hx i t ht).quiescent

/-- A transfer that is cancelled while it dials completes quietly. -/
theorem quiescent_cancelledRun :
    ∃ t, cancelledRun.transfers 0 = some t ∧ t.completions = [.error .cancelled] ∧
      Quiescent t.log := by
  have hx : (transferMachine ℕ).Reachable CompletesQuietly cancelledRun :=
    Machine.reachable_getD_of_guarded (M := transferMachine ℕ) ⟨fun _ => none, rfl⟩
      (by decide +kernel) (by decide +kernel) _
  exact ⟨_, rfl, rfl, quiescent (i := 0) hx rfl⟩

/-- A transfer that is cancelled after the last item of its stream, while a worker polls it.
The destination it was to replace is removed after its promise was rejected. -/
def removedLate : TransferRun ℕ :=
  ((transferMachine ℕ).run { fs := fun _ => some (.file 3) }
    [.download 1 [47, 97] 7, .start 0, .outer 0 .poll, .inner 0 .poll, .inner 0 (.lookup true),
      .inner 0 (.connect (.ok ())), .inner 0 (.next (some .done)), .inner 0 (.next none),
      .inner 0 (.effect none), .cancel 1, .get 0, .take 0, .send 0, .outer 0 .cancelled,
      .remove 0, .outer 0 .complete, .outer 0 (.flush 0), .outer 0 .settle, .inner 0 .resume,
      .inner 0 .yield, .inner 0 .drop, .inner 0 (.effect none)]).getD { fs := fun _ => none }

/-- A transfer that is cancelled while a worker polls its stream.  Its last item is reported,
and passed on by the bridge, after its promise was rejected. -/
def reportedLate : TransferRun ℕ :=
  ((transferMachine ℕ).run { fs := fun _ => none }
    [.download 1 [47, 97] 7, .start 0, .outer 0 .poll, .inner 0 .poll, .inner 0 (.lookup true),
      .inner 0 (.connect (.ok ())), .inner 0 .yield, .inner 0 .poll, .cancel 1, .get 0, .take 0,
      .send 0, .outer 0 .cancelled, .remove 0, .outer 0 .complete, .outer 0 (.flush 0),
      .outer 0 .settle, .inner 0 (.next (some (.progress 10))), .inner 0 (.offer 0),
      .inner 0 .emit, .inner 0 .yield, .inner 0 .drop]).getD { fs := fun _ => none }

theorem removedLate_reachable : (transferMachine ℕ).Reachable Any removedLate :=
  Machine.reachable_getD (M := transferMachine ℕ) ⟨fun _ => some (.file 3), rfl⟩
    (by decide +kernel) _

theorem reportedLate_reachable : (transferMachine ℕ).Reachable Any reportedLate :=
  Machine.reachable_getD (M := transferMachine ℕ) ⟨fun _ => none, rfl⟩ (by decide +kernel) _

theorem not_quiescent :
    (∃ x t, (transferMachine ℕ).Reachable Any x ∧ x.transfers 0 = some t ∧
      t.log = [.started 1, .completed (.error .cancelled), .settled (.error .cancelled),
        .removed] ∧ ¬ Quiescent t.log) ∧
    ∃ x t, (transferMachine ℕ).Reachable Any x ∧ x.transfers 0 = some t ∧
      t.log = [.started 1, .completed (.error .cancelled), .settled (.error .cancelled),
        .progress 10, .emitted 10] ∧ ¬ Quiescent t.log := by
  refine ⟨⟨removedLate, _, removedLate_reachable, rfl, rfl, ?_⟩,
    reportedLate, _, reportedLate_reachable, rfl, rfl, ?_⟩
  · intro h
    exact absurd h.effects (by decide +kernel)
  · intro h
    exact absurd h.events (by decide +kernel)

end TransferRun

end Iroh.Core
