import ReactNativeIroh.Lib.Machine
import ReactNativeIroh.Ts.Downloads

/-!
# The life cycle of a transfer

`TransferRun` is one `TransferController` with the native download it starts.  Beside them
it keeps the ids the native side has reported, those `cancelDownload` was called with, and
whether the host has called `cancel()` before the transfer was settled.

The native call may report progress and its id before it returns, and a listener it reaches
may cancel the transfer, so `begin` is given what happens during the call.  The promise it
returns is settled in one turn of the host, and the reaction of `begin` runs in a later one.
-/

namespace Iroh

open Transition

/-- The promise of the native download.  `skipped` is a `begin()` that found the transfer
settled, and `threw` one whose native call threw. -/
inductive NativePromise where
  | unstarted
  | skipped
  | threw (error : IrohError)
  | pending
  | settled (error : Option IrohError)
  | reacted (error : Option IrohError)

namespace NativePromise

/-- Whether `startDownload` was called. -/
def started : NativePromise → Bool
  | .unstarted => false
  | .skipped => false
  | _ => true

/-- Whether `begin()` is through with it: it threw, or the reaction has run. -/
def isOver : NativePromise → Bool
  | .threw _ => true
  | .reacted _ => true
  | _ => false

/-- What the transfer is settled with, going by the native promise. -/
def Settles (outcome : Option (Option IrohError)) : NativePromise → Prop
  | .unstarted => outcome = none ∨ outcome = some (some cancelledBeforeStart)
  | .skipped => outcome = some (some cancelledBeforeStart)
  | .threw error => outcome = some (some error)
  | .pending => outcome = none
  | .settled _ => outcome = none
  | .reacted error => outcome = some error

end NativePromise

namespace TransferEvent

variable {φ : Type*}

/-- Whether it is the reaction to the native promise. -/
def reaction : TransferEvent φ → Bool
  | .downloaded _ => true
  | _ => false

/-- Whether it is `cancel()`. -/
def cancels : TransferEvent φ → Bool
  | .cancel => true
  | _ => false

/-- The id it reports. -/
def id? : TransferEvent φ → Option ℕ
  | .onStart transferId => some transferId
  | _ => none

end TransferEvent

structure TransferRun (φ : Type*) where
  transfer : TransferController φ := .new
  native : NativePromise := .unstarted
  reported : List ℕ := []
  cancelled : List ℕ := []
  requested : Bool := false

/-- What can happen.  `settle` settles the native promise. -/
inductive TransferAction (φ : Type*) where
  | begin (during : List (TransferEvent φ)) (throws : Option IrohError)
  | event (e : TransferEvent φ)
  | settle (error : Option IrohError)
  | reaction

namespace TransferRun

variable {φ : Type*} [DecidableEq φ]

def after (e : TransferEvent φ) (x : TransferRun φ) : TransferRun φ :=
  let (transfer, cancelled) :=
    TransferController.handle Downloads.requestNativeCancel e (x.transfer, x.cancelled)
  { x with
    transfer
    cancelled
    reported := x.reported ++ e.id?.toList
    requested := x.requested || (e.cancels && !x.transfer.isSettled) }

/-- `begin()`, with what happens during the native call. -/
def begin (during : List (TransferEvent φ)) (throws : Option IrohError) (x : TransferRun φ) :
    TransferRun φ :=
  let x := { x with transfer := { x.transfer with started := true } }
  if x.transfer.isSettled then { x with native := .skipped }
  else
    let x := during.foldl (fun x e => x.after e) x
    match throws with
    | some error =>
        { x with
          transfer := { x.transfer with hub := x.transfer.hub.settle (some error) }
          native := .threw error }
    | none => { x with native := .pending }

/-- The native callbacks follow the native call. -/
def enabled (x : TransferRun φ) (e : TransferEvent φ) : Bool :=
  !e.reaction && (!e.native || x.native.started)

def step (x : TransferRun φ) : TransferAction φ → Option (TransferRun φ)
  | .begin during throws =>
      match x.native with
      | .unstarted =>
          if during.any TransferEvent.reaction then none else some (x.begin during throws)
      | _ => none
  | .event e => if x.enabled e then some (x.after e) else none
  | .settle error =>
      match x.native with
      | .pending => some { x with native := .settled error }
      | _ => none
  | .reaction =>
      match x.native with
      | .settled error => some { x.after (.downloaded error) with native := .reacted error }
      | _ => none

/-- When nothing happens during the native call, this is `begin` of the transfer. -/
theorem begin_transfer (throws : Option IrohError) (x : TransferRun φ) :
    (x.begin [] throws).transfer = (x.transfer.begin throws).1 := by
  simp only [begin, TransferController.begin]
  split
  · rfl
  · cases throws with
    | none => rfl
    | some error => rfl

end TransferRun

/-- The machine of one transfer. -/
def transferMachine (φ : Type*) [DecidableEq φ] : Machine (TransferRun φ) (TransferAction φ) where
  init x := x = {}
  step := TransferRun.step

namespace TransferRun

variable {φ : Type*} {x y : TransferRun φ}

/-! ## What a transfer keeps -/

/-- What the transfer knows is what it was told, a request whose id is known was passed on,
and the progress ends with the transfer. -/
structure Heard (x : TransferRun φ) : Prop where
  latest : x.transfer.nativeTransferId = x.reported.getLast?
  requested : x.requested = true → x.transfer.isSettled = false →
    x.transfer.cancelRequested = true
  sent : x.transfer.cancelRequested = true → x.transfer.isSettled = false →
    ∀ transferId, x.transfer.nativeTransferId = some transferId → transferId ∈ x.cancelled
  ended : x.transfer.isSettled = true → x.transfer.hub.watchable.closed = true

theorem heard_new : ({} : TransferRun φ).Heard := ⟨rfl, nofun, nofun, nofun⟩

namespace Heard

/-- A settled transfer, with its progress ended, has nothing to pass on. -/
theorem of_settled (hlatest : x.transfer.nativeTransferId = x.reported.getLast?)
    (hs : x.transfer.isSettled = true) (hended : x.transfer.hub.watchable.closed = true) :
    x.Heard where
  latest := hlatest
  requested _ h := by rw [hs] at h; cases h
  sent _ h := by rw [hs] at h; cases h
  ended _ := hended

/-- The hub is settled, and its watchable is closed. -/
theorem settle (h : x.Heard) (error : Option IrohError) (native : NativePromise) :
    ({ x with
      transfer := { x.transfer with hub := x.transfer.hub.settle error }
      native } : TransferRun φ).Heard := by
  refine of_settled h.latest (ProgressHub.settle_isSettled error _) ?_
  exact ProgressHub.settle_closed h.ended error

/-- Nothing but the watchable of the hub changes, and it does not end. -/
theorem of_watchable (h : x.Heard) {watchable : Watchable φ ProgressEvent IrohError}
    (hclosed : watchable.closed = x.transfer.hub.watchable.closed) :
    ({ x with transfer := { x.transfer with hub := { x.transfer.hub with watchable } } } :
      TransferRun φ).Heard :=
  ⟨h.latest, h.requested, h.sent, fun hs => hclosed.trans (h.ended hs)⟩

variable [DecidableEq φ]

theorem cancel (h : x.Heard) : (x.after .cancel).Heard := by
  cases hs : x.transfer.isSettled with
  | true =>
      have hsame : x.after .cancel = x := by
        simp [after, TransferController.handle, TransferController.cancel, hs,
          TransferEvent.id?, TransferEvent.cancels]
      rwa [hsame]
  | false =>
      cases hb : x.transfer.started with
      | false =>
          -- it waits in the queue, and is settled there
          have hcancel : x.after .cancel = { x with
              transfer := { x.transfer with
                cancelRequested := true
                hub := x.transfer.hub.settle (some cancelledBeforeStart) }
              requested := true } := by
            simp [after, TransferController.handle, TransferController.cancel, hs, hb,
              TransferEvent.id?, TransferEvent.cancels]
          rw [hcancel]
          refine of_settled h.latest (ProgressHub.settle_isSettled _ _) ?_
          exact ProgressHub.settle_closed h.ended _
      | true =>
          -- the native side hears of it now, or with the id
          cases hid : x.transfer.nativeTransferId with
          | none =>
              have hcancel : x.after .cancel = { x with
                  transfer := { x.transfer with cancelRequested := true }
                  requested := true } := by
                simp [after, TransferController.handle, TransferController.cancel, hs, hb, hid,
                  TransferEvent.id?, TransferEvent.cancels]
              rw [hcancel]
              exact ⟨h.latest, fun _ _ => rfl, fun _ _ id hsome => absurd (hid.symm.trans hsome)
                (by simp), h.ended⟩
          | some transferId =>
              have hcancel : x.after .cancel = { x with
                  transfer := { x.transfer with cancelRequested := true }
                  cancelled := x.cancelled ++ [transferId]
                  requested := true } := by
                simp [after, TransferController.handle, TransferController.cancel, hs, hb, hid,
                  TransferEvent.id?, TransferEvent.cancels, Downloads.requestNativeCancel]
              rw [hcancel]
              refine ⟨h.latest, fun _ _ => rfl, fun _ _ id hsome => ?_, h.ended⟩
              obtain rfl := Option.some.inj (hid.symm.trans hsome)
              exact List.mem_append_right _ (List.mem_singleton_self _)

theorem onStart (h : x.Heard) (transferId : ℕ) : (x.after (.onStart transferId)).Heard := by
  have hlatest : some transferId = (x.reported ++ [transferId]).getLast? := by simp
  cases hr : x.transfer.cancelRequested with
  | false =>
      have hstart : x.after (.onStart transferId) = { x with
          transfer := { x.transfer with nativeTransferId := some transferId }
          reported := x.reported ++ [transferId] } := by
        simp [after, TransferController.handle, TransferController.onStart, hr,
          TransferEvent.id?, TransferEvent.cancels]
      rw [hstart]
      refine ⟨hlatest, h.requested, fun hrequested => ?_, h.ended⟩
      rw [hr] at hrequested
      cases hrequested
  | true =>
      have hstart : x.after (.onStart transferId) = { x with
          transfer := { x.transfer with nativeTransferId := some transferId }
          cancelled := x.cancelled ++ [transferId]
          reported := x.reported ++ [transferId] } := by
        simp [after, TransferController.handle, TransferController.onStart, hr,
          TransferEvent.id?, TransferEvent.cancels, Downloads.requestNativeCancel]
      rw [hstart]
      refine ⟨hlatest, h.requested, fun _ _ id hsome => ?_, h.ended⟩
      obtain rfl := Option.some.inj hsome
      exact List.mem_append_right _ (List.mem_singleton_self _)

theorem after (h : x.Heard) (e : TransferEvent φ) : (x.after e).Heard := by
  cases e with
  | cancel => exact h.cancel
  | onStart transferId => exact h.onStart transferId
  | onProgress bytesReceived =>
      have hsame := h.of_watchable
        (Watchable.push_sameClosed x.transfer.hub.watchable { bytesReceived })
      simpa [TransferRun.after, TransferController.handle, ProgressHub.dispatch,
        TransferEvent.id?, TransferEvent.cancels] using hsame
  | downloaded error =>
      simpa [TransferRun.after, TransferController.handle, TransferEvent.id?,
        TransferEvent.cancels] using h.settle error x.native
  | consumer e =>
      have hsame := h.of_watchable
        (Watchable.consume_still e x.transfer.hub.watchable ()).1
      simpa [TransferRun.after, TransferController.handle, ProgressHub.consume,
        TransferEvent.id?, TransferEvent.cancels] using hsame

theorem begin (h : x.Heard) (during : List (TransferEvent φ)) (throws : Option IrohError) :
    (x.begin during throws).Heard := by
  have hduring : ∀ x : TransferRun φ, x.Heard → (during.foldl (fun x e => x.after e) x).Heard :=
    fun x hx => List.foldlRecOn during _ hx fun x hx e _ => hx.after e
  simp only [TransferRun.begin]
  split
  · exact ⟨h.latest, h.requested, h.sent, h.ended⟩
  · have hcalled := hduring { x with transfer := { x.transfer with started := true } }
      ⟨h.latest, h.requested, h.sent, h.ended⟩
    cases throws with
    | none => exact ⟨hcalled.latest, hcalled.requested, hcalled.sent, hcalled.ended⟩
    | some error => exact hcalled.settle (some error) (.threw error)

end Heard

/-- The invariant of a transfer: it is settled as its native promise says. -/
structure Lives (x : TransferRun φ) : Prop where
  heard : x.Heard
  outcome : x.native.Settles x.transfer.hub.outcome
  waits : x.transfer.started = false ↔ x.native = .unstarted

theorem lives_new : ({} : TransferRun φ).Lives :=
  ⟨heard_new, Or.inl rfl, fun _ => rfl, fun _ => rfl⟩

theorem Lives.settled (h : x.Lives) (hover : x.native.isOver = true) :
    x.transfer.hub.outcome.isSome = true := by
  have houtcome := h.outcome
  cases hn : x.native with
  | threw error =>
      rw [hn] at houtcome
      exact Option.isSome_iff_exists.mpr ⟨_, houtcome⟩
  | reacted error =>
      rw [hn] at houtcome
      exact Option.isSome_iff_exists.mpr ⟨_, houtcome⟩
  | _ =>
      rw [hn] at hover
      cases hover

/-- A transfer that was cancelled before `begin()`. -/
structure Dropped (x : TransferRun φ) : Prop where
  outcome : x.transfer.hub.outcome = some (some cancelledBeforeStart)
  native : x.native = .unstarted ∨ x.native = .skipped

theorem Dropped.unstarted (h : x.Dropped) : x.native.started = false := by
  rcases h.native with hn | hn
  · rw [hn]; rfl
  · rw [hn]; rfl

variable [DecidableEq φ]

/-- What a transfer was settled with stays. -/
theorem later_after (e : TransferEvent φ) (x : TransferRun φ) :
    x.transfer.Later (x.after e).transfer :=
  TransferController.handle_later _ e x.transfer x.cancelled

theorem later_foldl (during : List (TransferEvent φ)) (x : TransferRun φ) :
    x.transfer.Later (during.foldl (fun x e => x.after e) x).transfer := by
  induction during generalizing x with
  | nil => exact .refl _
  | cons e during ih => exact fun r hr => ih (x.after e) r (later_after e x r hr)

theorem started_after (e : TransferEvent φ) (x : TransferRun φ) :
    (x.after e).transfer.started = x.transfer.started :=
  TransferController.handle_started _ e x.transfer x.cancelled

/-- Once started, a transfer is settled by the reaction only. -/
theorem outcome_after {e : TransferEvent φ} (he : e.reaction = false)
    (hs : x.transfer.started = true) :
    (x.after e).transfer.hub.outcome = x.transfer.hub.outcome := by
  cases e with
  | cancel =>
      simp only [after, TransferController.handle, TransferController.cancel, hs, if_true]
      split
      · rfl
      · split
        · rfl
        · rfl
  | onStart transferId =>
      simp only [after, TransferController.handle, TransferController.onStart]
      split
      · rfl
      · rfl
  | onProgress bytesReceived => rfl
  | downloaded error => cases he
  | consumer e => rfl

/-- What happens during the native call leaves the transfer started, and unsettled. -/
theorem foldl_after {during : List (TransferEvent φ)}
    (hd : during.any TransferEvent.reaction = false) (hs : x.transfer.started = true)
    (hn : x.transfer.hub.outcome = none) :
    (during.foldl (fun x e => x.after e) x).transfer.started = true ∧
      (during.foldl (fun x e => x.after e) x).transfer.hub.outcome = none := by
  refine List.foldlRecOn (motive := fun x : TransferRun φ =>
    x.transfer.started = true ∧ x.transfer.hub.outcome = none) during _ ⟨hs, hn⟩
    fun x hx e he => ?_
  have hreaction : e.reaction = false := by simpa using List.any_eq_false.mp hd e he
  exact ⟨(started_after e x).trans hx.1, (outcome_after hreaction hx.1).trans hx.2⟩

/-- Everything a step can do. -/
theorem step_cases {a : TransferAction φ} (h : x.step a = some y) :
    (∃ during throws, x.native = .unstarted ∧ during.any TransferEvent.reaction = false ∧
      y = x.begin during throws) ∨
    (∃ e, x.enabled e = true ∧ y = x.after e) ∨
    (∃ error, x.native = .pending ∧ y = { x with native := .settled error }) ∨
    (∃ error, x.native = .settled error ∧
      y = { x.after (.downloaded error) with native := .reacted error }) := by
  cases a with
  | begin during throws =>
      cases hn : x.native with
      | unstarted =>
          simp only [step, hn, Option.ite_none_left_eq_some, Option.some.injEq] at h
          exact Or.inl ⟨during, throws, rfl, by simpa using h.1, h.2.symm⟩
      | _ => simp only [step, hn, reduceCtorEq] at h
  | event e =>
      simp only [step, Option.ite_none_right_eq_some, Option.some.injEq] at h
      exact Or.inr (Or.inl ⟨e, h.1, h.2.symm⟩)
  | settle error =>
      cases hn : x.native with
      | pending =>
          simp only [step, hn, Option.some.injEq] at h
          exact Or.inr (Or.inr (Or.inl ⟨error, rfl, h.symm⟩))
      | _ => simp only [step, hn, reduceCtorEq] at h
  | reaction =>
      cases hn : x.native with
      | settled error =>
          simp only [step, hn, Option.some.injEq] at h
          exact Or.inr (Or.inr (Or.inr ⟨error, rfl, h.symm⟩))
      | _ => simp only [step, hn, reduceCtorEq] at h

namespace Lives

theorem after (h : x.Lives) {e : TransferEvent φ} (he : x.enabled e = true) :
    (x.after e).Lives := by
  obtain ⟨hreaction, hnative⟩ : e.reaction = false ∧ (e.native = false ∨ x.native.started = true) :=
    by simpa [enabled] using he
  refine ⟨h.heard.after e, ?_, by rw [started_after]; exact h.waits⟩
  cases hs : x.transfer.started with
  | true =>
      rw [outcome_after hreaction hs]
      exact h.outcome
  | false =>
      -- it waits in the queue, and the native side has not heard of it
      have hunstarted := h.waits.mp hs
      have houtcome := h.outcome
      rw [hunstarted] at houtcome hnative
      have hwaiting : x.transfer.Waiting := ⟨hs, houtcome⟩
      have hafter := hwaiting.handle Downloads.requestNativeCancel
        (hnative.resolve_right Bool.false_ne_true) x.cancelled
      show x.native.Settles _
      rw [hunstarted]
      exact hafter.outcome

theorem begin (h : x.Lives) (hn : x.native = .unstarted) {during : List (TransferEvent φ)}
    (hd : during.any TransferEvent.reaction = false) (throws : Option IrohError) :
    (x.begin during throws).Lives := by
  have houtcome := h.outcome
  rw [hn] at houtcome
  have hheard := h.heard.begin during throws
  cases hs : x.transfer.hub.isSettled with
  | true =>
      have hskipped : x.begin during throws =
          { x with transfer := { x.transfer with started := true }, native := .skipped } := by
        simp [TransferRun.begin, TransferController.isSettled, hs]
      rw [hskipped] at hheard ⊢
      obtain ⟨r, hr⟩ := TransferController.isSettled_iff.mp hs
      refine ⟨hheard, houtcome.resolve_left fun hnone => ?_, fun h => ?_, fun h => ?_⟩
      · cases hr.symm.trans hnone
      · cases h
      · cases h
  | false =>
      have hnone : x.transfer.hub.outcome = none := by
        simpa [ProgressHub.isSettled_eq] using hs
      obtain ⟨hstarted, hunsettled⟩ := foldl_after (x := { x with
        transfer := { x.transfer with started := true } }) hd rfl hnone
      simp only [TransferRun.begin, TransferController.isSettled, hs, Bool.false_eq_true, if_false]
        at hheard ⊢
      cases throws with
      | none =>
          refine ⟨hheard, hunsettled, fun h => ?_, fun h => by cases h⟩
          cases hstarted.symm.trans h
      | some error =>
          refine ⟨hheard, ?_, fun h => ?_, fun h => by cases h⟩
          · simp only [ProgressHub.settle, ProgressHub.isSettled_eq, hunsettled]
            rfl
          · cases hstarted.symm.trans h

theorem step (h : x.Lives) {a : TransferAction φ} (hy : x.step a = some y) : y.Lives := by
  rcases step_cases hy with
    ⟨during, throws, hn, hd, rfl⟩ | ⟨e, he, rfl⟩ | ⟨error, hn, rfl⟩ | ⟨error, hn, rfl⟩
  · exact h.begin hn hd throws
  · exact h.after he
  · have houtcome := h.outcome
    rw [hn] at houtcome
    refine ⟨⟨h.heard.latest, h.heard.requested, h.heard.sent, h.heard.ended⟩, houtcome,
      fun hs => ?_, nofun⟩
    exact absurd (hn.symm.trans (h.waits.mp hs)) (by simp)
  · have hheard := h.heard.after (.downloaded error)
    have hnone : x.transfer.hub.outcome = none := by
      have houtcome := h.outcome
      rwa [hn] at houtcome
    refine ⟨⟨hheard.latest, hheard.requested, hheard.sent, hheard.ended⟩, ?_, fun hs => ?_, nofun⟩
    · simp only [TransferRun.after, TransferController.handle, ProgressHub.settle,
        ProgressHub.isSettled_eq, hnone]
      rfl
    · have hstarted : x.transfer.started = false :=
        (started_after (.downloaded error) x).symm.trans hs
      exact absurd (hn.symm.trans (h.waits.mp hstarted)) (by simp)

end Lives

theorem lives_invariant : (transferMachine φ).Invariant Any Lives where
  init _ hx := hx ▸ lives_new
  step _ _ _ hx _ hy := hx.step hy

/-- One state of a transfer is a later one. -/
theorem step_later {a : TransferAction φ} (hy : x.step a = some y) :
    x.transfer.Later y.transfer := by
  rcases step_cases hy with
    ⟨during, throws, -, -, rfl⟩ | ⟨e, -, rfl⟩ | ⟨error, -, rfl⟩ | ⟨error, -, rfl⟩
  · simp only [begin]
    split
    · exact .refl _
    · have hduring := later_foldl during
        { x with transfer := { x.transfer with started := true } }
      cases throws with
      | none => exact hduring
      | some error => exact fun r hr => TransferController.later_settle _ _ _ rfl r (hduring r hr)
  · exact later_after e x
  · exact .refl _
  · exact later_after (.downloaded error) x

theorem Dropped.step (h : x.Dropped) {a : TransferAction φ} (hy : x.step a = some y) :
    y.Dropped := by
  refine ⟨step_later hy _ h.outcome, ?_⟩
  rcases step_cases hy with
    ⟨during, throws, -, -, rfl⟩ | ⟨e, -, rfl⟩ | ⟨error, hn, rfl⟩ | ⟨error, hn, rfl⟩
  · have hs : x.transfer.hub.isSettled = true := by
      rw [ProgressHub.isSettled_eq, h.outcome]
      rfl
    right
    simp [begin, TransferController.isSettled, hs]
  · exact h.native
  · rcases h.native with hn' | hn'
    · cases hn.symm.trans hn'
    · cases hn.symm.trans hn'
  · rcases h.native with hn' | hn'
    · cases hn.symm.trans hn'
    · cases hn.symm.trans hn'

/-- A transfer that waits is dropped when it is cancelled. -/
theorem Lives.dropped (h : x.Lives) (hn : x.native = .unstarted) : (x.after .cancel).Dropped := by
  have houtcome := h.outcome
  rw [hn] at houtcome
  have hwaiting : x.transfer.Waiting := ⟨h.waits.mpr hn, houtcome⟩
  obtain ⟨e, he, -⟩ := hwaiting.cancel_cancelled Downloads.requestNativeCancel x.cancelled
  have hstill := (hwaiting.cancel Downloads.requestNativeCancel x.cancelled).outcome
  exact ⟨hstill.resolve_left (by simp [he]), Or.inl hn⟩

/-! ## The life cycle -/

/-- What holds of a transfer at every moment of its life. -/
structure LifeCycle (x : TransferRun φ) : Prop where
  /-- `done` settles once. -/
  once : ∀ y, (transferMachine φ).Leads Any x y → ∀ r, x.transfer.hub.outcome = some r →
    y.transfer.hub.outcome = some r
  /-- `isSettled` changes with it. -/
  flag : x.transfer.isSettled = x.transfer.hub.outcome.isSome
  /-- It has settled once the reaction to the native promise has run, or the start threw. -/
  settled : x.native.isOver = true → x.transfer.hub.outcome.isSome = true
  /-- A transfer that is cancelled before `begin()` is never started, and rejects. -/
  dropped : x.native = .unstarted → ∀ x', x.step (.event .cancel) = some x' →
    ∀ y, (transferMachine φ).Leads Any x' y → y.native.started = false ∧
      ∃ e, y.transfer.hub.outcome = some (some e) ∧ e.code.value = 3003
  /-- A request is passed on with the id that is known. -/
  sent : x.transfer.isSettled = false → x.requested = true →
    ∀ transferId, x.reported.getLast? = some transferId → transferId ∈ x.cancelled
  /-- Progress that arrives after the settlement reaches nobody. -/
  quiet : x.transfer.isSettled = true → ∀ bytesReceived x',
    x.step (.event (.onProgress bytesReceived)) = some x' → x' = x

theorem Lives.quiet (h : x.Lives) (hs : x.transfer.isSettled = true) (bytesReceived : ℕ) :
    x.after (.onProgress bytesReceived) = x := by
  have hpush := Watchable.push_closed (h.heard.ended hs) ({ bytesReceived } : ProgressEvent)
  simp [TransferRun.after, TransferController.handle, ProgressHub.dispatch, hpush,
    TransferEvent.id?, TransferEvent.cancels]

theorem life_cycle (hx : (transferMachine φ).Reachable Any x) : x.LifeCycle := by
  have h := lives_invariant.reachable hx
  refine ⟨fun y hy r hr => ?_, ProgressHub.isSettled_eq _, h.settled, fun hn x' hx' y hy => ?_,
    fun hs hr transferId hid => ?_, fun hs bytesReceived x' hx' => ?_⟩
  · refine hy.keeps (I := fun y => y.transfer.hub.outcome = some r) ?_ hr
    exact fun _ _ _ hr _ hstep => step_later hstep r hr
  · obtain rfl := Option.some.inj hx'
    have hdropped : y.Dropped :=
      hy.keeps (I := Dropped) (fun _ _ _ h _ hstep => h.step hstep) (h.dropped hn)
    exact ⟨hdropped.unstarted, cancelledBeforeStart, hdropped.outcome, rfl⟩
  · exact h.heard.sent (h.heard.requested hr hs) hs transferId (h.heard.latest.trans hid)
  · simp only [step, Option.ite_none_right_eq_some, Option.some.injEq] at hx'
    obtain ⟨-, rfl⟩ := hx'
    exact h.quiet hs bytesReceived

/-- The native call reports progress at once, the host cancels, the id comes late, and the
native side rejects. -/
def cancelledLate : List (TransferAction ℕ) :=
  [.event (.consumer (.listen 0)), .begin [.onProgress 5] none, .event .cancel,
    .event (.onStart 7), .event (.onProgress 9),
    .settle (some ⟨.cancelled, "download cancelled"⟩), .event .cancel, .reaction]

def lateRun : TransferRun ℕ := ((transferMachine ℕ).run {} cancelledLate).getD {}

theorem life_cycle_late : lateRun.cancelled = [7, 7] ∧ lateRun.transfer.isSettled = true ∧
    lateRun.transfer.hub.watchable.calls = [(0, ⟨5, none⟩), (0, ⟨9, none⟩)] ∧
    lateRun.LifeCycle :=
  ⟨by decide +kernel, by decide +kernel, by decide +kernel,
    life_cycle (Machine.reachable_getD rfl (by decide +kernel) _)⟩

end TransferRun

end Iroh
