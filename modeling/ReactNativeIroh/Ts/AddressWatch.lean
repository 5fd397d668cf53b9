import ReactNativeIroh.Ts.IrohError
import ReactNativeIroh.Ts.Watchable

/-!
# The address watch

An endpoint fans the changes of its address out to any number of consumers, and runs
one native watch while there is one.  The fan-out is made when it is first used.

`binding.watchAddr` either throws or calls `onStart` with the id of the new watch
before it returns.  Which of the two it does is an argument of every event that may
call it.  The type of addresses is left open.
-/

namespace Iroh

/-- The watch id the endpoint holds, and the native watches started and stopped, in
the order of the calls. -/
structure NativeWatch where
  addressWatchId : Option ℕ := none
  started : List ℕ := []
  stopped : List ℕ := []
deriving DecidableEq

namespace NativeWatch

def stopNativeAddrWatch (w : NativeWatch) : NativeWatch :=
  match w.addressWatchId with
  | none => w
  | some watchId => { w with addressWatchId := none, stopped := w.stopped ++ [watchId] }

/-- Every watch started is the one the endpoint holds, or was stopped. -/
def Accounted (w : NativeWatch) : Prop := w.started = w.stopped ++ w.addressWatchId.toList

/-- No watch is running. -/
def Stopped (w : NativeWatch) : Prop := w.addressWatchId = none ∧ w.started = w.stopped

theorem Accounted.stop {w : NativeWatch} (h : w.Accounted) : w.stopNativeAddrWatch.Stopped := by
  cases hid : w.addressWatchId with
  | none => simpa [stopNativeAddrWatch, hid, Stopped, Accounted] using h
  | some watchId => simpa [stopNativeAddrWatch, hid, Stopped, Accounted] using h

theorem Stopped.accounted {w : NativeWatch} (h : w.Stopped) : w.Accounted := by
  simp [Accounted, h.1, h.2]

theorem Stopped.stop {w : NativeWatch} (h : w.Stopped) : w.stopNativeAddrWatch = w := by
  simp [stopNativeAddrWatch, h.1]

end NativeWatch

structure AddressWatch (φ α : Type*) where
  addressWatch : Option (Watchable φ α IrohError) := none
  native : NativeWatch := {}
deriving DecidableEq

/-- What a consumer may do to the address watch, and what the native watch reports.
`addrChanges` is the getter alone.  A change carries what `parseEndpointAddr` gave, or
`none` when it threw. -/
inductive AddressEvent (φ α : Type*) where
  | addrChanges
  | consumer (e : ConsumerEvent φ)
  | change (addr : Option α)
deriving DecidableEq

namespace AddressWatch

variable {φ α : Type*}

/-- `startNativeAddrWatch`, where `start` is what `binding.watchAddr` does. -/
def startNativeAddrWatch (start : Except IrohError ℕ) :
    Watchable φ α IrohError × NativeWatch → Watchable φ α IrohError × NativeWatch
  | (s, w) =>
      if w.addressWatchId.isSome then (s, w)
      else
        match start with
        | .ok watchId =>
            (s, { w with addressWatchId := some watchId, started := w.started ++ [watchId] })
        | .error e => (s.close (some e), w)

def hooks (start : Except IrohError ℕ) : WatchableHooks φ α IrohError NativeWatch where
  onActive := startNativeAddrWatch start
  onIdle p := (p.1, p.2.stopNativeAddrWatch)

/-- The fan-out, made when it is first used. -/
def addressWatchable (x : AddressWatch φ α) : AddressWatch φ α :=
  { x with addressWatch := some (x.addressWatch.getD {}) }

/-- A consumer's call.  `watchAddr` and the loop over `addrChanges` make the fan-out. -/
def consume [DecidableEq φ] (start : Except IrohError ℕ) (e : ConsumerEvent φ)
    (x : AddressWatch φ α) : AddressWatch φ α :=
  let (s, native) := Watchable.consume (hooks start) e (x.addressWatch.getD {}, x.native)
  { addressWatch := some s, native }

def handle [DecidableEq φ] (start : Except IrohError ℕ) :
    AddressEvent φ α → AddressWatch φ α → AddressWatch φ α
  | .addrChanges, x => x.addressWatchable
  | .consumer e, x => x.consume start e
  | .change none, x => x
  | .change (some addr), x => { x with addressWatch := x.addressWatch.map (Watchable.push addr) }

/-- What `close()` of the endpoint does to the watch. -/
def shut (x : AddressWatch φ α) : AddressWatch φ α where
  addressWatch := x.addressWatch.map (Watchable.close none)
  native := x.native.stopNativeAddrWatch

/-! ## What the hooks keep -/

theorem hooks_accounted (start : Except IrohError ℕ) :
    Watchable.Keeps (hooks start : WatchableHooks φ α _ _) NativeWatch.Accounted where
  onActive p hp := by
    simp only [hooks, startNativeAddrWatch]
    split
    · exact hp
    · next hid =>
        cases start with
        | error e => exact hp
        | ok watchId =>
            have hnone : p.2.addressWatchId = none := by simpa using hid
            have hstarted : p.2.started = p.2.stopped := by
              simpa [NativeWatch.Accounted, hnone] using hp
            simp [NativeWatch.Accounted, hstarted]
  onIdle _ hp := hp.stop.accounted

/-- Where no watch runs, one that cannot be started changes nothing. -/
theorem hooks_same (e : IrohError) {w₀ : NativeWatch} (h : w₀.Stopped) :
    Watchable.Keeps (hooks (.error e) : WatchableHooks φ α _ _) (· = w₀) where
  onActive p hp := by
    simp only [hooks, startNativeAddrWatch]
    split
    · exact hp
    · exact hp
  onIdle p hp := by
    simp only [hooks, hp]
    exact h.stop

/-- A watch that cannot be started leaves none running. -/
theorem hooks_stopped (e : IrohError) :
    Watchable.Keeps (hooks (.error e) : WatchableHooks φ α _ _) NativeWatch.Stopped where
  onActive p hp := by
    have hsame := (hooks_same e hp).onActive p rfl
    rwa [hsame]
  onIdle p hp := by
    have hsame := (hooks_same e hp).onIdle p rfl
    rwa [hsame]

section Handle

variable [DecidableEq φ] {start : Except IrohError ℕ} {I : NativeWatch → Prop}

theorem handle_keeps (hI : Watchable.Keeps (hooks start : WatchableHooks φ α _ _) I)
    (e : AddressEvent φ α) {x : AddressWatch φ α} (hx : I x.native) :
    I (handle start e x).native := by
  cases e with
  | addrChanges => exact hx
  | consumer e => exact hI.consume e (p := (x.addressWatch.getD {}, x.native)) hx
  | change addr =>
      cases addr with
      | none => exact hx
      | some addr => exact hx

end Handle

end AddressWatch

end Iroh
