import ReactNativeIroh.Ts.IrohError
import ReactNativeIroh.Ts.Watchable

/-!
# Transfers

A `TransferController` is one download.  It waits in the queue of its endpoint until
`begin` starts it, and its `ProgressHub` settles once.  The flag of the hub and its promise
change together, and a hub carries that they agree.

The native download reports its id by `onStart`, at any time after it was started.
Where the native call reports it before it returns, `onStart` is the next event.
The owner's state, of type `ω`, is what `requestNativeCancel` acts on.
-/

namespace Iroh

structure ProgressEvent where
  bytesReceived : ℕ
  totalBytes : Option ℕ := none
deriving DecidableEq

/-- The read side of a transfer: what it was settled with, and its progress.  `settled` is
the flag, and `outcome` is what the promise was settled with. -/
structure ProgressHub (φ : Type*) where
  settled : Bool := false
  outcome : Option (Option IrohError) := none
  watchable : Watchable φ ProgressEvent IrohError := {}
  agree : settled = outcome.isSome := by rfl
deriving DecidableEq

namespace ProgressHub

variable {φ : Type*}

def isSettled (hub : ProgressHub φ) : Bool := hub.settled

theorem isSettled_eq (hub : ProgressHub φ) : hub.isSettled = hub.outcome.isSome := hub.agree

def dispatch (event : ProgressEvent) (hub : ProgressHub φ) : ProgressHub φ :=
  { hub with watchable := hub.watchable.push event }

/-- Terminate the stream: resolve, or reject with the error. -/
def settle (error : Option IrohError) (hub : ProgressHub φ) : ProgressHub φ :=
  if hub.isSettled then hub
  else { settled := true, outcome := some error, watchable := hub.watchable.close error }

theorem settle_isSettled (error : Option IrohError) (hub : ProgressHub φ) :
    (hub.settle error).isSettled = true := by
  unfold settle
  split
  · assumption
  · rfl

theorem settle_outcome (error : Option IrohError) (hub : ProgressHub φ) :
    (hub.settle error).outcome = some (hub.outcome.getD error) := by
  unfold settle
  rw [hub.isSettled_eq]
  cases h : hub.outcome with
  | none => rfl
  | some r => exact h

/-- The progress ends with the hub. -/
theorem settle_closed {hub : ProgressHub φ}
    (h : hub.isSettled = true → hub.watchable.closed = true) (error : Option IrohError) :
    (hub.settle error).watchable.closed = true := by
  unfold settle
  split
  · next hs => exact h hs
  · exact Watchable.close_closed error hub.watchable

/-- A consumer of the progress. -/
def consume [DecidableEq φ] (e : ConsumerEvent φ) (hub : ProgressHub φ) : ProgressHub φ :=
  { hub with watchable := (Watchable.consume {} e (hub.watchable, ())).1 }

theorem settle_settled {hub : ProgressHub φ} (h : hub.isSettled = true)
    (error : Option IrohError) : hub.settle error = hub := by
  simp [settle, h]

end ProgressHub

structure TransferController (φ : Type*) where
  hub : ProgressHub φ := {}
  started : Bool := false
  cancelRequested : Bool := false
  nativeTransferId : Option ℕ := none
deriving DecidableEq

/-- What the host does with a transfer, and what its native download reports. -/
inductive TransferEvent (φ : Type*) where
  | cancel
  | onStart (transferId : ℕ)
  | onProgress (bytesReceived : ℕ)
  | downloaded (error : Option IrohError)
  | consumer (e : ConsumerEvent φ)

/-- Whether it comes from the native download. -/
def TransferEvent.native {φ : Type*} : TransferEvent φ → Bool
  | .cancel => false
  | .consumer _ => false
  | _ => true

/-- What a transfer cancelled in the queue is settled with. -/
def cancelledBeforeStart : IrohError := ⟨.cancelled, "download cancelled before it started"⟩

namespace TransferController

variable {φ ω : Type*}

/-- The constructor. -/
def new : TransferController φ := {}

def isSettled (t : TransferController φ) : Bool := t.hub.isSettled

/-- Start the native download, which may throw, and say whether its promise is what
the promise of `begin()` waits for. -/
def begin (throws : Option IrohError) (t : TransferController φ) : TransferController φ × Bool :=
  let t := { t with started := true }
  if t.isSettled then (t, false)
  else
    match throws with
    | some error => ({ t with hub := t.hub.settle (some error) }, false)
    | none => (t, true)

/-- The native download has been given an id. -/
def onStart (requestNativeCancel : ℕ → ω → ω) (transferId : ℕ) :
    TransferController φ × ω → TransferController φ × ω
  | (t, w) =>
      let t := { t with nativeTransferId := some transferId }
      if t.cancelRequested then (t, requestNativeCancel transferId w) else (t, w)

def cancel (requestNativeCancel : ℕ → ω → ω) :
    TransferController φ × ω → TransferController φ × ω
  | (t, w) =>
      if t.isSettled then (t, w)
      else
        let t := { t with cancelRequested := true }
        if t.started then
          match t.nativeTransferId with
          | some transferId => (t, requestNativeCancel transferId w)
          | none => (t, w)
        else ({ t with hub := t.hub.settle (some cancelledBeforeStart) }, w)

def handle [DecidableEq φ] (requestNativeCancel : ℕ → ω → ω) :
    TransferEvent φ → TransferController φ × ω → TransferController φ × ω
  | .cancel, p => cancel requestNativeCancel p
  | .onStart transferId, p => onStart requestNativeCancel transferId p
  | .onProgress bytesReceived, (t, w) => ({ t with hub := t.hub.dispatch { bytesReceived } }, w)
  | .downloaded error, (t, w) => ({ t with hub := t.hub.settle error }, w)
  | .consumer e, (t, w) => ({ t with hub := t.hub.consume e }, w)

/-- The transfer waits in the queue.  It may have been cancelled there. -/
structure Waiting (t : TransferController φ) : Prop where
  unstarted : t.started = false
  outcome : t.hub.outcome = none ∨ t.hub.outcome = some (some cancelledBeforeStart)

/-- The transfer was settled as cancelled. -/
def Cancelled (t : TransferController φ) : Prop :=
  ∃ e, t.hub.outcome = some (some e) ∧ e.code = .cancelled

/-- One transfer is a later state of the other: what was settled stays as it was. -/
def Later (t t' : TransferController φ) : Prop :=
  ∀ r, t.hub.outcome = some r → t'.hub.outcome = some r

theorem isSettled_iff {t : TransferController φ} :
    t.isSettled = true ↔ ∃ r, t.hub.outcome = some r := by
  rw [isSettled, ProgressHub.isSettled_eq, Option.isSome_iff_exists]

theorem waiting_new : (new : TransferController φ).Waiting := ⟨rfl, Or.inl rfl⟩

theorem Later.refl (t : TransferController φ) : t.Later t := fun _ h => h

theorem Cancelled.later {t t' : TransferController φ} (h : t.Cancelled) (hl : t.Later t') :
    t'.Cancelled := by
  obtain ⟨e, he, hcode⟩ := h
  exact ⟨e, hl _ he, hcode⟩

theorem later_settle (t t' : TransferController φ) (error : Option IrohError)
    (h : t'.hub = t.hub.settle error) : t.Later t' := by
  intro r hr
  rw [h, ProgressHub.settle_settled (by simp [ProgressHub.isSettled_eq, hr])]
  exact hr

theorem begin_later (throws : Option IrohError) (t : TransferController φ) :
    t.Later (t.begin throws).1 := by
  simp only [begin]
  split
  · exact .refl t
  · split
    · exact later_settle _ _ _ rfl
    · exact .refl t

theorem cancel_later (requestNativeCancel : ℕ → ω → ω) (t : TransferController φ) (w : ω) :
    t.Later (cancel requestNativeCancel (t, w)).1 := by
  simp only [cancel]
  split
  · exact .refl t
  · split
    · split
      · exact .refl t
      · exact .refl t
    · exact later_settle _ _ _ rfl

theorem handle_later [DecidableEq φ] (requestNativeCancel : ℕ → ω → ω) (e : TransferEvent φ)
    (t : TransferController φ) (w : ω) : t.Later (handle requestNativeCancel e (t, w)).1 := by
  cases e with
  | cancel => exact cancel_later _ t w
  | onStart transferId =>
      simp only [handle, onStart]
      split
      · exact .refl t
      · exact .refl t
  | onProgress bytesReceived => exact .refl t
  | downloaded error => exact later_settle _ _ _ rfl
  | consumer e => exact .refl t

/-- A transfer cancelled in the queue is settled there. -/
theorem Waiting.cancel_cancelled {t : TransferController φ} (h : t.Waiting)
    (requestNativeCancel : ℕ → ω → ω) (w : ω) :
    (cancel requestNativeCancel (t, w)).1.Cancelled := by
  obtain ⟨hstarted, hnone | hcancelled⟩ := h
  · refine ⟨cancelledBeforeStart, ?_, rfl⟩
    simp [cancel, isSettled, ProgressHub.isSettled_eq, hnone, hstarted, ProgressHub.settle]
  · refine ⟨cancelledBeforeStart, ?_, rfl⟩
    simp [cancel, isSettled, ProgressHub.isSettled_eq, hcancelled]

theorem Waiting.cancel {t : TransferController φ} (h : t.Waiting)
    (requestNativeCancel : ℕ → ω → ω) (w : ω) :
    (TransferController.cancel requestNativeCancel (t, w)).1.Waiting := by
  obtain ⟨hstarted, hnone | hcancelled⟩ := h
  · refine ⟨?_, Or.inr ?_⟩
    · simp [TransferController.cancel, isSettled, ProgressHub.isSettled_eq, hnone, hstarted]
    · simp [TransferController.cancel, isSettled, ProgressHub.isSettled_eq, hnone, hstarted,
        ProgressHub.settle]
  · simpa [TransferController.cancel, isSettled, ProgressHub.isSettled_eq, hcancelled] using
      (⟨hstarted, Or.inr hcancelled⟩ : t.Waiting)

theorem cancel_started (requestNativeCancel : ℕ → ω → ω) (t : TransferController φ) (w : ω) :
    (cancel requestNativeCancel (t, w)).1.started = t.started := by
  simp only [cancel]
  split
  · rfl
  · split
    · split
      · rfl
      · rfl
    · rfl

theorem handle_started [DecidableEq φ] (requestNativeCancel : ℕ → ω → ω) (e : TransferEvent φ)
    (t : TransferController φ) (w : ω) :
    (handle requestNativeCancel e (t, w)).1.started = t.started := by
  cases e with
  | cancel => exact cancel_started _ t w
  | onStart transferId =>
      simp only [handle, onStart]
      split
      · rfl
      · rfl
  | onProgress bytesReceived => rfl
  | downloaded error => rfl
  | consumer e => rfl

/-- A transfer the native side has not heard of waits. -/
theorem Waiting.handle [DecidableEq φ] {t : TransferController φ} (h : t.Waiting)
    (requestNativeCancel : ℕ → ω → ω) {e : TransferEvent φ} (he : e.native = false) (w : ω) :
    (TransferController.handle requestNativeCancel e (t, w)).1.Waiting := by
  cases e with
  | cancel => exact h.cancel requestNativeCancel w
  | onStart transferId => cases he
  | onProgress bytesReceived => cases he
  | downloaded error => cases he
  | consumer e => exact ⟨h.unstarted, h.outcome⟩

end TransferController

end Iroh
