import ReactNativeIroh.Lib.Effect
import ReactNativeIroh.Ts.Transfer

/-!
# The hooks `useTransfer` and `useDownload`

`useTransfer` listens to the progress of a transfer and reacts to its promise.  A transfer
settles first and the reaction comes later; it gives no progress once it has settled.  What
`readFiles` returns at an event is an argument of the event.

`useDownload` starts a transfer and cancels it in its cleanup, and nothing it starts comes
back to it.
-/

namespace Iroh

open Transition

inductive TransferStatus where
  | idle
  | transferring
  | done
  | error
deriving DecidableEq

structure UseTransferState (φ : Type*) where
  status : TransferStatus
  bytesReceived : ℕ
  totalBytes : Option ℕ := none
  files : Option φ := none
  error : Option IrohError := none
deriving DecidableEq

namespace UseTransferState

variable {φ : Type*}

def IDLE : UseTransferState φ := { status := .idle, bytesReceived := 0 }

/-- The state a transfer starts in, with what `readFiles` returns if there is one. -/
def startingState : Option (Option φ) → UseTransferState φ
  | none => IDLE
  | some files => { status := .transferring, bytesReceived := 0, files }

end UseTransferState

/-- One run of the effect.  `transfer` is what `readFiles` returned when it was set up,
`outcome` is what the transfer was settled with, and `reacted` is what `readFiles` returned
to the reaction. -/
structure TransferEffect (φ : Type*) where
  transfer : Option (Option φ)
  active : Bool := true
  outcome : Option (Option IrohError) := none
  reacted : Option (Option φ) := none
  unsubscribed : ℕ := 0
  events : List (ProgressEvent × Option φ) := []

inductive TransferCallback (φ : Type*) where
  | progress (event : ProgressEvent) (files : Option φ)
  | settle (error : Option IrohError)
  | react (files : Option φ)

namespace TransferEffect

variable {φ : Type*}

def setup (transfer : Option (Option φ)) (_ : UseTransferState φ) :
    TransferEffect φ × UseTransferState φ :=
  ({ transfer }, .startingState transfer)

def onProgress (event : ProgressEvent) (files : Option φ) (prev : UseTransferState φ) :
    UseTransferState φ where
  status := if prev.status = .done ∨ prev.status = .error then prev.status else .transferring
  bytesReceived := event.bytesReceived
  totalBytes := event.totalBytes
  files

def onSettled (error : Option IrohError) (files : Option φ) (prev : UseTransferState φ) :
    UseTransferState φ :=
  match error with
  | none => { prev with status := .done, files }
  | some error => { prev with status := .error, error := some error }

def handle (e : TransferCallback φ) (x : TransferEffect φ) (state : UseTransferState φ) :
    Option (TransferEffect φ × UseTransferState φ) :=
  match x.transfer, e, x.outcome with
  | none, _, _ => none
  | some _, .progress event files, none =>
      if x.active then
        some ({ x with events := x.events ++ [(event, files)] }, onProgress event files state)
      else some (x, state)
  | some _, .settle error, none => some ({ x with outcome := some error }, state)
  | some _, .react files, some error =>
      if x.reacted.isSome then none
      else
        some ({ x with reacted := some files },
          if x.active then onSettled error files state else state)
  | some _, _, _ => none

/-- The effect returns a cleanup function only when there is a transfer. -/
def cleanup (x : TransferEffect φ) (state : UseTransferState φ) :
    TransferEffect φ × UseTransferState φ :=
  match x.transfer with
  | none => (x, state)
  | some _ => ({ x with active := false, unsubscribed := x.unsubscribed + 1 }, state)

/-- The status of a run: a transfer is over once the reaction to its promise has come. -/
def status (x : TransferEffect φ) : TransferStatus :=
  match x.transfer, x.reacted, x.outcome with
  | none, _, _ => .idle
  | some _, some _, some none => .done
  | some _, some _, some (some _) => .error
  | _, _, _ => .transferring

/-- The files of a run: those of the last event, or those the reaction to a success read. -/
def files (x : TransferEffect φ) : Option φ :=
  match x.reacted, x.outcome with
  | some files, some none => files
  | _, _ => (x.events.getLast?.map Prod.snd).getD x.transfer.join

/-- The mounted run listens, and is what is shown. -/
structure Live (x : TransferEffect φ) (state : UseTransferState φ) : Prop where
  active : x.active = true
  unsubscribed : x.unsubscribed = 0
  reacted : x.reacted.isSome → x.transfer.isSome ∧ x.outcome.isSome
  status : state.status = x.status
  bytesReceived : state.bytesReceived = (x.events.getLast?.map fun p => p.1.bytesReceived).getD 0
  totalBytes : state.totalBytes = x.events.getLast?.bind fun p => p.1.totalBytes
  files : state.files = x.files
  error : state.error = x.reacted.bind fun _ => x.outcome.join

/-- A run that was cleaned up has stopped listening, once. -/
structure Stale (x : TransferEffect φ) : Prop where
  active : x.transfer.isSome → x.active = false
  unsubscribed : x.unsubscribed = x.transfer.toList.length

end TransferEffect

def useTransfer (φ : Type*) :
    Effect (Option (Option φ)) (TransferEffect φ) (UseTransferState φ) (TransferCallback φ) where
  setup := TransferEffect.setup
  handle := TransferEffect.handle
  cleanup := TransferEffect.cleanup

namespace TransferEffect

variable {φ : Type*} {x x' : TransferEffect φ} {state state' : UseTransferState φ}
  {e : TransferCallback φ}

theorem setup_live (transfer : Option (Option φ)) (state : UseTransferState φ) :
    Live (setup transfer state).1 (setup transfer state).2 := by
  cases transfer with
  | none => exact ⟨rfl, rfl, nofun, rfl, rfl, rfl, rfl, rfl⟩
  | some files => exact ⟨rfl, rfl, nofun, rfl, rfl, rfl, rfl, rfl⟩

theorem handle_live (h : Live x state) (hs : handle e x state = some (x', state')) :
    Live x' state' := by
  obtain ⟨hactive, hunsubscribed, hreacted, hstatus, hbytes, htotal, hfiles, herror⟩ := h
  unfold handle at hs
  split at hs
  · cases hs
  · next transfer event files htransfer houtcome =>
    have hwaiting : x.reacted = none := by
      cases hr : x.reacted with
      | none => rfl
      | some files => simp [hr, houtcome] at hreacted
    rw [if_pos hactive] at hs
    obtain ⟨rfl, rfl⟩ := Prod.mk.inj (Option.some.inj hs)
    refine ⟨hactive, hunsubscribed, hreacted, ?_, ?_, ?_, ?_, ?_⟩
    · simp [onProgress, hstatus, TransferEffect.status, htransfer, hwaiting]
    · simp [onProgress]
    · simp [onProgress]
    · simp [onProgress, TransferEffect.files, hwaiting]
    · simp [onProgress, hwaiting]
  · next transfer error htransfer houtcome =>
    have hwaiting : x.reacted = none := by
      cases hr : x.reacted with
      | none => rfl
      | some files => simp [hr, houtcome] at hreacted
    obtain ⟨rfl, rfl⟩ := Prod.mk.inj (Option.some.inj hs)
    refine ⟨hactive, hunsubscribed, fun hr => ⟨(hreacted hr).1, rfl⟩, ?_, hbytes, htotal, ?_, ?_⟩
    · simp [hstatus, TransferEffect.status, htransfer, hwaiting]
    · simp [hfiles, TransferEffect.files, hwaiting]
    · simp [herror, hwaiting]
  · next transfer files error htransfer houtcome =>
    split at hs
    · cases hs
    next hnot =>
    have hwaiting : x.reacted = none := by simpa using hnot
    obtain ⟨rfl, rfl⟩ := Prod.mk.inj (Option.some.inj hs)
    have hattached : x.transfer.isSome ∧ x.outcome.isSome := by simp [htransfer, houtcome]
    cases error with
    | none =>
        refine ⟨hactive, hunsubscribed, fun _ => hattached, ?_, hbytes, htotal, ?_, ?_⟩
        · simp [onSettled, TransferEffect.status, htransfer, houtcome]
        · simp [onSettled, TransferEffect.files, houtcome]
        · simp [onSettled, herror, hwaiting, houtcome]
    | some error =>
        refine ⟨hactive, hunsubscribed, fun _ => hattached, ?_, hbytes, htotal, ?_, ?_⟩
        · simp [onSettled, TransferEffect.status, htransfer, houtcome]
        · simp [onSettled, hfiles, TransferEffect.files, houtcome, hwaiting]
        · simp [onSettled, houtcome]
  · cases hs

theorem handle_stale (h : Stale x) (hs : handle e x state = some (x', state')) :
    Stale x' ∧ state' = state := by
  unfold handle at hs
  split at hs
  · cases hs
  · next transfer event files htransfer houtcome =>
    have hactive := h.active (by simp [htransfer])
    rw [if_neg (by simp [hactive])] at hs
    obtain ⟨rfl, rfl⟩ := Prod.mk.inj (Option.some.inj hs)
    exact ⟨h, rfl⟩
  · next transfer error htransfer houtcome =>
    obtain ⟨rfl, rfl⟩ := Prod.mk.inj (Option.some.inj hs)
    exact ⟨⟨h.active, h.unsubscribed⟩, rfl⟩
  · next transfer files error htransfer houtcome =>
    have hactive := h.active (by simp [htransfer])
    split at hs
    · cases hs
    simp only [hactive, Bool.false_eq_true, if_false] at hs
    obtain ⟨rfl, rfl⟩ := Prod.mk.inj (Option.some.inj hs)
    exact ⟨⟨fun _ => rfl, h.unsubscribed⟩, rfl⟩
  · cases hs

theorem cleanup_live (h : Live x state) : Stale (cleanup x state).1 := by
  unfold cleanup
  split
  · next hnone => exact ⟨by simp [hnone], by simp [hnone, h.unsubscribed]⟩
  · next files hsome => exact ⟨fun _ => rfl, by simp [hsome, h.unsubscribed]⟩

theorem sound : (useTransfer φ).Sound Live Stale fun _ => True where
  setup transfer state _ := setup_live transfer state
  live _ _ _ _ _ h hs := handle_live h hs
  stale _ _ _ _ _ h hs := handle_stale h hs
  cleanup _ _ h := ⟨cleanup_live h, trivial⟩

/-- What holds of a component that shows a transfer, after any run of actions. -/
structure Law (v₀ : UseTransferState φ)
    (as : List (EffectAction (Option (Option φ)) (TransferCallback φ)))
    (c : Component (TransferEffect φ) (UseTransferState φ)) : Prop where
  /-- It listens to no transfer it has let go of. -/
  unsubscribed : ∀ x ∈ c.past, x.unsubscribed = x.transfer.toList.length
  subscribed : ∀ x ∈ c.current, x.unsubscribed = 0
  /-- It shows the transfer it has, with the numbers of its last event. -/
  status : ∀ x ∈ c.current, c.view.status = x.status
  bytesReceived : ∀ x ∈ c.current,
    c.view.bytesReceived = (x.events.getLast?.map fun p => p.1.bytesReceived).getD 0
  totalBytes : ∀ x ∈ c.current, c.view.totalBytes = x.events.getLast?.bind fun p => p.1.totalBytes
  files : ∀ x ∈ c.current, c.view.files = x.files
  /-- There is an error to show exactly when the status is one. -/
  error : ∀ x ∈ c.current, (c.view.status = .error ↔ c.view.error.isSome) ∧
    c.view.error = x.reacted.bind fun _ => x.outcome.join
  /-- Nothing that comes late is seen. -/
  undisturbed : ∃ d, ((useTransfer φ).machine v₀).run { view := v₀ }
    (as.filter fun a => !a.isLate) = some d ∧ Effect.Shows c d

/-- There is an error to show exactly when the status is one. -/
theorem Live.status_error_iff (h : Live x state) :
    state.status = .error ↔ state.error.isSome := by
  rw [h.status, h.error]
  cases hr : x.reacted with
  | none =>
      cases ht : x.transfer with
      | none => simp [TransferEffect.status, ht]
      | some files => simp [TransferEffect.status, ht, hr]
  | some files =>
      obtain ⟨htransfer, houtcome⟩ := h.reacted (by simp [hr])
      obtain ⟨before, hbefore⟩ := Option.isSome_iff_exists.mp htransfer
      obtain ⟨error, herror⟩ := Option.isSome_iff_exists.mp houtcome
      cases error with
      | none => simp [TransferEffect.status, hbefore, hr, herror]
      | some error => simp [TransferEffect.status, hbefore, hr, herror]

theorem useTransfer_law {v₀ : UseTransferState φ}
    {as : List (EffectAction (Option (Option φ)) (TransferCallback φ))}
    {c : Component (TransferEffect φ) (UseTransferState φ)}
    (h : ((useTransfer φ).machine v₀).run { view := v₀ } as = some c) : Law v₀ as c := by
  have hinv : ((useTransfer φ).machine v₀).Invariant Any
      (Effect.Holds Live Stale fun _ => True) := sound.invariant trivial
  obtain ⟨hstale, hlive, -⟩ := hinv.reachable (Machine.reachable_of_run as rfl h)
  refine ⟨fun x hx => (hstale x hx).unsubscribed, fun x hx => (hlive x hx).unsubscribed,
    fun x hx => (hlive x hx).status, fun x hx => (hlive x hx).bytesReceived,
    fun x hx => (hlive x hx).totalBytes, fun x hx => (hlive x hx).files,
    fun x hx => ⟨(hlive x hx).status_error_iff, (hlive x hx).error⟩, ?_⟩
  exact sound.shows_run (hinv.init _ rfl) ⟨rfl, rfl⟩ h

/-- A transfer that fails after it was let go of is not seen. -/
theorem useTransfer_law_late :
    ∃ c : Component (TransferEffect ℕ) (UseTransferState ℕ),
      Law .IDLE [.setup (some none), .callback (.progress ⟨5, none⟩ none), .cleanup,
        .setup (some (some 0)), .late 0 (.settle (some cancelledBeforeStart)),
        .late 0 (.react none), .callback (.progress ⟨7, some 9⟩ (some 1))] c ∧
      c.view = ⟨.transferring, 7, some 9, some 1, none⟩ :=
  ⟨_, useTransfer_law rfl, rfl⟩

end TransferEffect

/-! ## Starting a transfer -/

/-- One run of the effect of `useDownload`, and how often it has cancelled what it started. -/
structure DownloadEffect where
  started : Option ℕ
  cancelled : ℕ := 0

namespace DownloadEffect

/-- The transfer `blobs.download` returns, when no argument is null. -/
def setup (started : Option ℕ) (_ : Option ℕ) : DownloadEffect × Option ℕ := ({ started }, started)

def cleanup (x : DownloadEffect) (transfer : Option ℕ) : DownloadEffect × Option ℕ :=
  match x.started with
  | none => (x, transfer)
  | some _ => ({ x with cancelled := x.cancelled + 1 }, none)

end DownloadEffect

/-- `useDownload`, whose effect has no callbacks. -/
def useDownload : Effect (Option ℕ) DownloadEffect (Option ℕ) Empty where
  setup := DownloadEffect.setup
  handle e _ _ := nomatch e
  cleanup := DownloadEffect.cleanup

/-- What the hook has started it cancels once, when it lets go of it, and it passes on to
`useTransfer` the one it has not cancelled. -/
theorem useDownload_holds {as : List (EffectAction (Option ℕ) Empty)}
    {c : Component DownloadEffect (Option ℕ)}
    (h : (useDownload.machine none).run { view := none } as = some c) :
    (∀ x ∈ c.past, x.cancelled = x.started.toList.length) ∧
      c.view = c.current.bind DownloadEffect.started ∧ ∀ x ∈ c.current, x.cancelled = 0 := by
  have hsound : useDownload.Sound (fun x transfer => x.cancelled = 0 ∧ transfer = x.started)
      (fun x => x.cancelled = x.started.toList.length) fun transfer => transfer = none := by
    refine ⟨fun started transfer _ => ⟨rfl, rfl⟩, nofun, nofun, fun x transfer hx => ?_⟩
    obtain ⟨hcancelled, rfl⟩ := hx
    simp only [useDownload, DownloadEffect.cleanup]
    split
    · next hnone => exact ⟨by simp [hcancelled, hnone], hnone⟩
    · next hsome => exact ⟨by simp [hcancelled, hsome], rfl⟩
  obtain ⟨hstale, hlive, hidle⟩ :=
    (hsound.invariant rfl).reachable (Machine.reachable_of_run as rfl h)
  refine ⟨hstale, ?_, fun x hx => (hlive x hx).1⟩
  cases hcurrent : c.current with
  | none => exact hidle hcurrent
  | some x => exact (hlive x hcurrent).2

end Iroh
