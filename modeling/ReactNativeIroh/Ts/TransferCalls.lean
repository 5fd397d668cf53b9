import ReactNativeIroh.Ts.TransferRun

/-!
# What a transfer asks for, and what it passes on

A transfer calls `cancelDownload` only if the host has cancelled it, with an id it was given.
Progress reaches its consumers until it is settled.
-/

namespace Iroh

open Transition

namespace TransferRun

variable {φ : Type*} {x y : TransferRun φ}

/-- The counts that were delivered to the consumers. -/
def pushed (x : TransferRun φ) : List ℕ :=
  x.transfer.hub.watchable.pushed.map ProgressEvent.bytesReceived

/-- The watchable is open while the transfer is unsettled, and what it asked for was asked of
it. -/
structure Asks (x : TransferRun φ) : Prop where
  live : x.transfer.isSettled = false → x.transfer.hub.watchable.closed = false
  requested : x.transfer.cancelRequested = true → x.requested = true
  known : ∀ transferId, x.transfer.nativeTransferId = some transferId → transferId ∈ x.reported
  cancelled : ∀ transferId ∈ x.cancelled, transferId ∈ x.reported ∧ x.requested = true

theorem asks_new : ({} : TransferRun φ).Asks := ⟨fun _ => rfl, nofun, nofun, nofun⟩

namespace Asks

theorem settle (h : x.Asks) (error : Option IrohError) (native : NativePromise) :
    ({ x with
      transfer := { x.transfer with hub := x.transfer.hub.settle error }
      native } : TransferRun φ).Asks := by
  refine ⟨fun hs => ?_, h.requested, h.known, h.cancelled⟩
  exact absurd (ProgressHub.settle_isSettled error x.transfer.hub) (Bool.eq_false_iff.mp hs)

/-- A native cancel is asked for with an id that was reported. -/
theorem pass (h : x.Asks) {transferId : ℕ} (hid : transferId ∈ x.reported) :
    ({ x with
      transfer := { x.transfer with cancelRequested := true }
      cancelled := x.cancelled ++ [transferId]
      requested := true } : TransferRun φ).Asks := by
  refine ⟨h.live, fun _ => rfl, h.known, fun id hmem => ?_⟩
  rcases List.mem_append.mp hmem with hold | hnew
  · exact ⟨(h.cancelled id hold).1, rfl⟩
  · exact ⟨List.mem_singleton.mp hnew ▸ hid, rfl⟩

end Asks

variable [DecidableEq φ]

/-! ## An event -/

theorem after_reported (x : TransferRun φ) (e : TransferEvent φ) :
    (x.after e).reported = x.reported ++ e.id?.toList := rfl

omit [DecidableEq φ] in
theorem settle_pushed (error : Option IrohError) (hub : ProgressHub φ) :
    (hub.settle error).watchable.pushed = hub.watchable.pushed := by
  unfold ProgressHub.settle
  split
  · rfl
  · exact Watchable.close_pushed error _

/-- An event that is no progress passes nothing on. -/
theorem pushed_after {e : TransferEvent φ} (he : ∀ bytes, e ≠ .onProgress bytes) :
    (x.after e).pushed = x.pushed := by
  cases e with
  | cancel =>
      simp only [pushed, after, TransferController.handle, TransferController.cancel]
      split
      · rfl
      · split
        · split
          · rfl
          · rfl
        · exact congrArg _ (settle_pushed _ _)
  | onStart transferId =>
      simp only [pushed, after, TransferController.handle, TransferController.onStart]
      split
      · rfl
      · rfl
  | onProgress bytes => exact absurd rfl (he bytes)
  | downloaded error => exact congrArg (List.map _) (settle_pushed error _)
  | consumer e =>
      exact congrArg (List.map _) (Watchable.consume_still e x.transfer.hub.watchable ()).2

namespace Asks

theorem cancel (h : x.Asks) : (x.after .cancel).Asks := by
  cases hs : x.transfer.isSettled with
  | true =>
      have hsame : x.after .cancel = x := by
        simp [after, TransferController.handle, TransferController.cancel, hs,
          TransferEvent.id?, TransferEvent.cancels]
      rwa [hsame]
  | false =>
      have hasked : ({ x with
          transfer := { x.transfer with cancelRequested := true }
          requested := true } : TransferRun φ).Asks :=
        ⟨h.live, fun _ => rfl, h.known, fun id hmem => ⟨(h.cancelled id hmem).1, rfl⟩⟩
      cases hb : x.transfer.started with
      | false =>
          have hcancel := hasked.settle (some cancelledBeforeStart) x.native
          simpa [after, TransferController.handle, TransferController.cancel, hs, hb,
            TransferEvent.id?, TransferEvent.cancels] using hcancel
      | true =>
          cases hid : x.transfer.nativeTransferId with
          | none =>
              simpa [after, TransferController.handle, TransferController.cancel, hs, hb, hid,
                TransferEvent.id?, TransferEvent.cancels] using hasked
          | some transferId =>
              have hpass := h.pass (h.known transferId hid)
              simpa [after, TransferController.handle, TransferController.cancel, hs, hb, hid,
                TransferEvent.id?, TransferEvent.cancels, Downloads.requestNativeCancel] using hpass

theorem onStart (h : x.Asks) (transferId : ℕ) : (x.after (.onStart transferId)).Asks := by
  have hmem : transferId ∈ x.reported ++ [transferId] := by simp
  have htold : ({ x with
      transfer := { x.transfer with nativeTransferId := some transferId }
      reported := x.reported ++ [transferId] } : TransferRun φ).Asks := by
    refine ⟨h.live, h.requested, fun id hid => ?_, fun id hid => ?_⟩
    · exact Option.some.inj hid ▸ hmem
    · exact ⟨List.mem_append_left _ (h.cancelled id hid).1, (h.cancelled id hid).2⟩
  cases hr : x.transfer.cancelRequested with
  | false =>
      simpa [after, TransferController.handle, TransferController.onStart, hr,
        TransferEvent.id?, TransferEvent.cancels] using htold
  | true =>
      have hrequested := h.requested hr
      have hpass := htold.pass hmem
      simpa [after, TransferController.handle, TransferController.onStart, hr, hrequested,
        TransferEvent.id?, TransferEvent.cancels, Downloads.requestNativeCancel] using hpass

theorem after (h : x.Asks) (e : TransferEvent φ) : (x.after e).Asks := by
  cases e with
  | cancel => exact h.cancel
  | onStart transferId => exact h.onStart transferId
  | onProgress bytes =>
      have hpush : ({ x with transfer := { x.transfer with
          hub := x.transfer.hub.dispatch { bytesReceived := bytes } } } : TransferRun φ).Asks :=
        ⟨fun hs => (Watchable.push_sameClosed _ _).trans (h.live hs), h.requested, h.known,
          h.cancelled⟩
      simpa [TransferRun.after, TransferController.handle, TransferEvent.id?,
        TransferEvent.cancels] using hpush
  | downloaded error =>
      simpa [TransferRun.after, TransferController.handle, TransferEvent.id?,
        TransferEvent.cancels] using h.settle error x.native
  | consumer e =>
      have hconsume : ({ x with transfer := { x.transfer with
          hub := x.transfer.hub.consume e } } : TransferRun φ).Asks :=
        ⟨fun hs => (Watchable.consume_still e _ ()).1.trans (h.live hs), h.requested, h.known,
          h.cancelled⟩
      simpa [TransferRun.after, TransferController.handle, TransferEvent.id?,
        TransferEvent.cancels] using hconsume

theorem begin (h : x.Asks) (during : List (TransferEvent φ)) (throws : Option IrohError) :
    (x.begin during throws).Asks := by
  have hduring : ∀ x : TransferRun φ, x.Asks → (during.foldl (fun x e => x.after e) x).Asks :=
    fun x hx => List.foldlRecOn during _ hx fun x hx e _ => hx.after e
  simp only [TransferRun.begin]
  split
  · exact ⟨h.live, h.requested, h.known, h.cancelled⟩
  · have hcalled := hduring { x with transfer := { x.transfer with started := true } }
      ⟨h.live, h.requested, h.known, h.cancelled⟩
    cases throws with
    | none => exact ⟨hcalled.live, hcalled.requested, hcalled.known, hcalled.cancelled⟩
    | some error => exact hcalled.settle (some error) (.threw error)

end Asks

theorem asks_invariant : (transferMachine φ).Invariant Any Asks where
  init _ hx := hx ▸ asks_new
  step := by
    intro x a y h _ hy
    rcases step_cases hy with
      ⟨during, throws, -, -, rfl⟩ | ⟨e, -, rfl⟩ | ⟨error, -, rfl⟩ | ⟨error, -, rfl⟩
    · exact h.begin during throws
    · exact h.after e
    · exact ⟨h.live, h.requested, h.known, h.cancelled⟩
    · have hafter := h.after (.downloaded error)
      exact ⟨hafter.live, hafter.requested, hafter.known, hafter.cancelled⟩

/-! ## What is passed on -/

/-- A request whose id is known was passed on, also by a transfer that was settled first. -/
structure PassesOn (x : TransferRun φ) : Prop where
  requested : x.requested = true → x.transfer.cancelRequested = true
  sent : x.transfer.cancelRequested = true →
    ∀ transferId, x.transfer.nativeTransferId = some transferId → transferId ∈ x.cancelled
  unstarted : x.transfer.started = false → x.transfer.nativeTransferId = none

namespace PassesOn

theorem cancel (h : x.PassesOn) : (x.after .cancel).PassesOn := by
  cases hs : x.transfer.isSettled with
  | true =>
      have hsame : x.after .cancel = x := by
        simp [TransferRun.after, TransferController.handle, TransferController.cancel, hs,
          TransferEvent.id?, TransferEvent.cancels]
      rwa [hsame]
  | false =>
      cases hb : x.transfer.started with
      | false =>
          have hcancel : ({ x with
              transfer := { x.transfer with
                cancelRequested := true
                hub := x.transfer.hub.settle (some cancelledBeforeStart) }
              requested := true } : TransferRun φ).PassesOn := by
            refine ⟨fun _ => rfl, fun _ id hid => ?_, h.unstarted⟩
            cases (h.unstarted hb).symm.trans hid
          simpa [TransferRun.after, TransferController.handle, TransferController.cancel, hs, hb,
            TransferEvent.id?, TransferEvent.cancels] using hcancel
      | true =>
          cases hid : x.transfer.nativeTransferId with
          | none =>
              have hcancel : ({ x with
                  transfer := { x.transfer with cancelRequested := true }
                  requested := true } : TransferRun φ).PassesOn := by
                refine ⟨fun _ => rfl, fun _ id hsome => ?_, h.unstarted⟩
                cases hid.symm.trans hsome
              simpa [TransferRun.after, TransferController.handle, TransferController.cancel, hs,
                hb, hid, TransferEvent.id?, TransferEvent.cancels] using hcancel
          | some transferId =>
              have hcancel : ({ x with
                  transfer := { x.transfer with cancelRequested := true }
                  cancelled := x.cancelled ++ [transferId]
                  requested := true } : TransferRun φ).PassesOn := by
                refine ⟨fun _ => rfl, fun _ id hsome => ?_, h.unstarted⟩
                obtain rfl := Option.some.inj (hid.symm.trans hsome)
                exact List.mem_append_right _ (List.mem_singleton_self _)
              simpa [TransferRun.after, TransferController.handle, TransferController.cancel, hs,
                hb, hid, TransferEvent.id?, TransferEvent.cancels,
                Downloads.requestNativeCancel] using hcancel

theorem onStart (h : x.PassesOn) (hstarted : x.transfer.started = true) (transferId : ℕ) :
    (x.after (.onStart transferId)).PassesOn := by
  have hnot : x.transfer.started = false → some transferId = none := fun hn => by
    rw [hstarted] at hn
    cases hn
  cases hr : x.transfer.cancelRequested with
  | false =>
      have hstart : ({ x with
          transfer := { x.transfer with nativeTransferId := some transferId }
          reported := x.reported ++ [transferId] } : TransferRun φ).PassesOn := by
        refine ⟨h.requested, fun hrequested => ?_, hnot⟩
        cases hr.symm.trans hrequested
      simpa [TransferRun.after, TransferController.handle, TransferController.onStart, hr,
        TransferEvent.id?, TransferEvent.cancels] using hstart
  | true =>
      have hstart : ({ x with
          transfer := { x.transfer with nativeTransferId := some transferId }
          cancelled := x.cancelled ++ [transferId]
          reported := x.reported ++ [transferId] } : TransferRun φ).PassesOn := by
        refine ⟨h.requested, fun _ id hsome => ?_, hnot⟩
        obtain rfl := Option.some.inj hsome
        exact List.mem_append_right _ (List.mem_singleton_self _)
      simpa [TransferRun.after, TransferController.handle, TransferController.onStart, hr,
        TransferEvent.id?, TransferEvent.cancels, Downloads.requestNativeCancel] using hstart

/-- The native side names the transfer only once it was started. -/
theorem after (h : x.PassesOn) {e : TransferEvent φ}
    (he : e.id?.isSome = true → x.transfer.started = true) : (x.after e).PassesOn := by
  cases e with
  | cancel => exact h.cancel
  | onStart transferId => exact h.onStart (he rfl) transferId
  | onProgress bytes =>
      refine ⟨fun hr => h.requested ?_, h.sent, h.unstarted⟩
      simpa [TransferRun.after, TransferEvent.cancels] using hr
  | downloaded error =>
      refine ⟨fun hr => h.requested ?_, h.sent, h.unstarted⟩
      simpa [TransferRun.after, TransferEvent.cancels] using hr
  | consumer e =>
      refine ⟨fun hr => h.requested ?_, h.sent, h.unstarted⟩
      simpa [TransferRun.after, TransferEvent.cancels] using hr

theorem begin (h : x.PassesOn) (during : List (TransferEvent φ)) (throws : Option IrohError) :
    (x.begin during throws).PassesOn := by
  have hbegun : ({ x with transfer := { x.transfer with started := true } } :
      TransferRun φ).PassesOn := ⟨h.requested, h.sent, nofun⟩
  simp only [TransferRun.begin]
  split
  · exact ⟨hbegun.requested, hbegun.sent, hbegun.unstarted⟩
  · have hcalled := List.foldlRecOn (motive := fun y => y.PassesOn ∧ y.transfer.started = true)
      during (fun x e => TransferRun.after e x) ⟨hbegun, rfl⟩
      fun y hy e _ => ⟨hy.1.after fun _ => hy.2, (started_after e y).trans hy.2⟩
    cases throws with
    | none => exact ⟨hcalled.1.requested, hcalled.1.sent, hcalled.1.unstarted⟩
    | some error => exact ⟨hcalled.1.requested, hcalled.1.sent, hcalled.1.unstarted⟩

end PassesOn

theorem event_eq {e : TransferEvent φ} (h : x.step (.event e) = some y) : y = x.after e := by
  simp only [step, Option.ite_none_right_eq_some, Option.some.injEq] at h
  exact h.2.symm

theorem settle_eq {error : Option IrohError} (h : x.step (.settle error) = some y) :
    x.native = .pending ∧ y = { x with native := .settled error } := by
  cases hn : x.native with
  | pending =>
      simp only [step, hn, Option.some.injEq] at h
      exact ⟨rfl, h.symm⟩
  | _ => simp [step, hn] at h

theorem reaction_eq (h : x.step .reaction = some y) :
    ∃ error, x.native = .settled error ∧
      y = { x.after (.downloaded error) with native := .reacted error } := by
  cases hn : x.native with
  | settled error =>
      simp only [step, hn, Option.some.injEq] at h
      exact ⟨error, rfl, h.symm⟩
  | _ => simp [step, hn] at h

/-- Nothing is told, or asked for, when the native call is made. -/
theorem begin_still {throws : Option IrohError} (h : x.step (.begin [] throws) = some y) :
    x.native = .unstarted ∧
      (y.native = .pending ∨ y.native = .skipped ∨ ∃ error, y.native = .threw error) ∧
      y.reported = x.reported ∧ y.pushed = x.pushed ∧ y.cancelled = x.cancelled := by
  cases hn : x.native with
  | unstarted =>
      simp only [step, hn, List.any_nil, Bool.false_eq_true, if_false] at h
      obtain rfl := Option.some.inj h
      refine ⟨rfl, ?_⟩
      simp only [begin, List.foldl_nil]
      split
      · exact ⟨.inr (.inl rfl), rfl, rfl, rfl⟩
      · cases throws with
        | none => exact ⟨.inl rfl, rfl, rfl, rfl⟩
        | some error =>
            exact ⟨.inr (.inr ⟨error, rfl⟩), rfl,
              congrArg (List.map _) (settle_pushed (some error) x.transfer.hub), rfl⟩
  | _ => simp [step, hn] at h

/-- Progress is passed on until the transfer is settled. -/
theorem pushed_onProgress (hl : x.Lives) (h : x.Asks) (bytes : ℕ) :
    (x.after (.onProgress bytes)).pushed =
      if x.transfer.isSettled then x.pushed else x.pushed ++ [bytes] := by
  cases hs : x.transfer.isSettled with
  | true => rw [hl.quiet hs bytes, if_pos rfl]
  | false =>
      obtain ⟨made, hpush⟩ := Watchable.push_open (h.live hs) ({ bytesReceived := bytes })
      simp [pushed, TransferRun.after, TransferController.handle, ProgressHub.dispatch, hpush]

end TransferRun

end Iroh
