import ReactNativeIroh.Core.TransferReports
import ReactNativeIroh.Lib.Linked
import ReactNativeIroh.Ts.BridgeLines
import ReactNativeIroh.Ts.TransferCalls

/-!
# The downloads of a host and the transfers of the core

Each transfer of the host calls `downloadBlob` at most once, and the core calls it back: with
the handle, with progress, and with the settlement of its promise.  The callbacks of a transfer
run on the host's thread one by one, in the order in which they were called and as late as it
likes.  Any number of transfers share one core.

`blob_download` may refuse a request.  Then the promise is rejected at once and nothing else is
called.
-/

namespace Iroh

open Transition

/-- What the promise of `downloadBlob` settles with, across the bridge. -/
def settlement : Core.Outcome → Option IrohError
  | .ok () => none
  | .error err => some (.fromMessage (JsString.fromNative (Core.encodeError err)))

theorem settlement_eq_none {r : Core.Outcome} (h : settlement r = none) : r = .ok () := by
  cases r with
  | ok => rfl
  | error => cases h

theorem settlement_eq_some {r : Core.Outcome} {e : IrohError} (h : settlement r = some e) :
    ∃ err, r = .error err ∧ e = ⟨.ofCore err, JsString.fromNative (Core.encodeError err)⟩ := by
  cases r with
  | ok => cases h
  | error err =>
      exact ⟨err, rfl, (Option.some.inj h).symm.trans (IrohError.fromMessage_crossed err)⟩

namespace Core

/-- The bridge calls the host back. -/
def TransferEvent.isCallback (e : TransferEvent) : Bool := e.isHostCall || e.isAnswer

def Transfer.callbacks {β : Type*} (t : Transfer β) : List TransferEvent :=
  t.log.filter TransferEvent.isCallback

/-- What was called back after `blob_download` had answered. -/
def TransferRun.callbacks {β : Type*} (x : TransferRun β) :
    Option (Except IrohError ℕ) → List TransferEvent
  | none => []
  | some (.error err) => [.settled (.error err)]
  | some (.ok i) => (x.transfers i).elim [] Transfer.callbacks

end Core

/-- The native download was called, and its promise is there. -/
def NativePromise.isCalled : NativePromise → Bool
  | .pending | .settled _ | .reacted _ => true
  | _ => false

/-- A transfer of the host.  `native` is what `blob_download` answered: the transfer of the
core, or an error. -/
structure DownloadHost (φ : Type*) where
  run : TransferRun φ := {}
  native : Option (Except Core.IrohError ℕ) := none
  /-- How many callbacks the host has handled. -/
  taken : ℕ := 0

structure DownloadHosts (β φ : Type*) where
  core : Core.TransferRun β
  hosts : ℕ → DownloadHost φ := fun _ => {}

/-- What `blob_download` makes of its arguments. -/
structure DownloadRequest (β : Type*) where
  endpoint : ℕ
  dest : Core.Path
  content : β

inductive DownloadHostsAction (β φ : Type*) where
  /-- The core, its tasks and its files. -/
  | core (a : Core.TransferAction β)
  /-- `begin()`.  The native call may throw, and `blob_download` may refuse the request. -/
  | begin (k : ℕ) (throws : Option IrohError)
      (request : Except Core.IrohError (DownloadRequest β))
  /-- What the host and its consumers do. -/
  | event (k : ℕ) (e : TransferEvent φ)
  /-- The host handles the next callback. -/
  | callback (k : ℕ)
  | reaction (k : ℕ)

namespace DownloadHost

variable {φ : Type*} [DecidableEq φ]

def handle (h : DownloadHost φ) : Core.TransferEvent → Option (TransferRun φ)
  | .started handle => h.run.step (.event (.onStart handle))
  | .emitted bytes => h.run.step (.event (.onProgress bytes))
  | .settled result => h.run.step (.settle (settlement result))
  | _ => none

end DownloadHost

namespace DownloadHosts

variable {β φ : Type*}

/-- What the core has called back for transfer `k` of the host. -/
def callbacks (x : DownloadHosts β φ) (k : ℕ) : List Core.TransferEvent :=
  x.core.callbacks (x.hosts k).native

def cancel (core : Core.TransferRun β) (handle : ℕ) : Core.TransferRun β :=
  (core.step (.cancel handle)).getD core

/-- Transfer `k` becomes `h`, and the core is told to cancel what it now asks for. -/
def move (x : DownloadHosts β φ) (k : ℕ) (h : DownloadHost φ) : DownloadHosts β φ where
  core := (h.run.cancelled.drop (x.hosts k).run.cancelled.length).foldl cancel x.core
  hosts := Function.update x.hosts k h

/-- The native call of transfer `k` has returned, or was not made. -/
def begun (x : DownloadHosts β φ) (k : ℕ) (request : Except Core.IrohError (DownloadRequest β))
    (run : TransferRun φ) : DownloadHosts β φ :=
  match run.native, request with
  | .pending, .ok r =>
      { core := (x.core.step (.download r.endpoint r.dest r.content)).getD x.core
        hosts := Function.update x.hosts k { run, native := some (.ok x.core.count) } }
  | .pending, .error err =>
      { x with hosts := Function.update x.hosts k { run, native := some (.error err) } }
  | _, _ => { x with hosts := Function.update x.hosts k { run } }

variable [DecidableEq φ]

def step (x : DownloadHosts β φ) : DownloadHostsAction β φ → Option (DownloadHosts β φ)
  | .core a =>
      if a.ofHost then none
      else (x.core.step a).map fun core => { x with core }
  | .begin k throws request => ((x.hosts k).run.step (.begin [] throws)).map (x.begun k request)
  | .event k e =>
      if e.native then none
      else ((x.hosts k).run.step (.event e)).map fun run => x.move k { x.hosts k with run }
  | .callback k =>
      ((x.callbacks k)[(x.hosts k).taken]?).bind fun e => ((x.hosts k).handle e).map fun run =>
        x.move k { x.hosts k with run, taken := (x.hosts k).taken + 1 }
  | .reaction k =>
      ((x.hosts k).run.step .reaction).map fun run => x.move k { x.hosts k with run }

/-- What a step can do. -/
inductive Steps (x : DownloadHosts β φ) : DownloadHosts β φ → Prop where
  | core {a : Core.TransferAction β} {core : Core.TransferRun β} :
      a.ofHost = false → x.core.step a = some core → Steps x { x with core }
  | begin {k : ℕ} {throws : Option IrohError} {run : TransferRun φ}
      (request : Except Core.IrohError (DownloadRequest β)) :
      (x.hosts k).run.step (.begin [] throws) = some run → Steps x (x.begun k request run)
  | event {k : ℕ} {e : TransferEvent φ} {run : TransferRun φ} : e.native = false →
      (x.hosts k).run.step (.event e) = some run → Steps x (x.move k { x.hosts k with run })
  | callback {k : ℕ} {e : Core.TransferEvent} {run : TransferRun φ} :
      (x.callbacks k)[(x.hosts k).taken]? = some e → (x.hosts k).handle e = some run →
      Steps x (x.move k { x.hosts k with run, taken := (x.hosts k).taken + 1 })
  | reaction {k : ℕ} {run : TransferRun φ} : (x.hosts k).run.step .reaction = some run →
      Steps x (x.move k { x.hosts k with run })

variable {x y : DownloadHosts β φ}

theorem steps {a : DownloadHostsAction β φ} (h : x.step a = some y) : x.Steps y := by
  cases a with
  | core a =>
      obtain ⟨ha, hy⟩ := Option.ite_none_left_eq_some.mp h
      obtain ⟨core, hc, rfl⟩ := Option.map_eq_some_iff.mp hy
      exact .core (Bool.eq_false_iff.mpr ha) hc
  | begin k throws request =>
      obtain ⟨run, hr, rfl⟩ := Option.map_eq_some_iff.mp h
      exact .begin request hr
  | event k e =>
      obtain ⟨he, hy⟩ := Option.ite_none_left_eq_some.mp h
      obtain ⟨run, hr, rfl⟩ := Option.map_eq_some_iff.mp hy
      exact .event (Bool.eq_false_iff.mpr he) hr
  | callback k =>
      obtain ⟨e, he, h⟩ := Option.bind_eq_some_iff.mp h
      obtain ⟨run, hr, rfl⟩ := Option.map_eq_some_iff.mp h
      exact .callback he hr
  | reaction k =>
      obtain ⟨run, hr, rfl⟩ := Option.map_eq_some_iff.mp h
      exact .reaction hr

end DownloadHosts

/-- The machine of a core and the transfers of the host. -/
def downloadHostsMachine (β φ : Type*) [DecidableEq φ] :
    Machine (DownloadHosts β φ) (DownloadHostsAction β φ) where
  init x := ∃ fs, x = { core := { fs } }
  step := DownloadHosts.step

/-! ## What a transfer has handled -/

namespace DownloadHost

variable {φ : Type*} {h : DownloadHost φ} {calls calls' : List Core.TransferEvent}

/-- What a transfer of the host is, going by the callbacks that were called.  Its progress is that
of the first of those it has handled, and of all of them until it is settled. -/
structure Follows (calls : List Core.TransferEvent) (h : DownloadHost φ) : Prop where
  bound : h.taken ≤ calls.length
  idle : h.run.native.isCalled = false → calls = []
  reported : ∀ id ∈ h.run.reported, .started id ∈ calls
  answered : ∀ error, h.run.native = .settled error ∨ h.run.native = .reacted error →
    ∃ r, .settled r ∈ calls.take h.taken ∧ error = settlement r
  pushed : ∃ m ≤ h.taken, h.run.pushed = (calls.take m).filterMap Core.TransferEvent.emitted? ∧
    (m = h.taken ∨ ∃ error, h.run.native = .reacted error ∧
      ∃ r, .settled r ∈ calls.take m ∧ error = settlement r)

namespace Follows

theorem grow (hf : h.Follows calls) (hp : calls <+: calls')
    (hidle : h.run.native.isCalled = false → calls' = []) : h.Follows calls' := by
  obtain ⟨later, rfl⟩ := hp
  have htake {m : ℕ} (hm : m ≤ h.taken) : (calls ++ later).take m = calls.take m :=
    List.take_append_of_le_length (hm.trans hf.bound)
  refine ⟨hf.bound.trans (by simp), hidle,
    fun id hid => List.mem_append_left _ (hf.reported id hid), fun error herror => ?_, ?_⟩
  · rw [htake le_rfl]
    exact hf.answered error herror
  · obtain ⟨m, hm, hpushed, hlast⟩ := hf.pushed
    exact ⟨m, hm, by rw [htake hm]; exact hpushed, by rw [htake hm]; exact hlast⟩

variable {run : TransferRun φ}

/-- The native call has returned, or was not made. -/
theorem fresh (hreported : run.reported = []) (hpushed : run.pushed = [])
    (hn : run.native = .pending ∨ calls = [] ∧ run.native.isCalled = false)
    {native : Option (Except Core.IrohError ℕ)} : Follows calls { run, native } := by
  refine ⟨Nat.zero_le _, fun hidle => ?_, fun id hid => ?_, fun error herror => ?_,
    0, le_rfl, hpushed, .inl rfl⟩
  · rcases hn with hn | ⟨hcalls, -⟩
    · rw [show run.native.isCalled = true by rw [hn]; rfl] at hidle
      cases hidle
    · exact hcalls
  · rw [show run.reported = [] from hreported] at hid
    cases hid
  · have hcalled : run.native.isCalled = true ∧ run.native ≠ .pending := by
      rcases herror with herror | herror
      · rw [show run.native = .settled error from herror]
        exact ⟨rfl, by simp⟩
      · rw [show run.native = .reacted error from herror]
        exact ⟨rfl, by simp⟩
    rcases hn with hn | ⟨-, hn⟩
    · exact absurd hn hcalled.2
    · exact absurd (hn.symm.trans hcalled.1) (by simp)

/-- It is settled by the reaction. -/
theorem settled_of_reacted (hl : h.run.Lives) {error : Option IrohError}
    (hn : h.run.native = .reacted error) : h.run.transfer.isSettled = true := by
  have houtcome := hl.outcome
  rw [hn] at houtcome
  exact TransferController.isSettled_iff.mpr ⟨error, houtcome⟩

theorem reacted_of_settled (hl : h.run.Lives) (hcalled : h.run.native.isCalled = true)
    (hs : h.run.transfer.isSettled = true) : ∃ error, h.run.native = .reacted error := by
  obtain ⟨r, hr⟩ := TransferController.isSettled_iff.mp hs
  have houtcome := hl.outcome
  cases hn : h.run.native with
  | reacted error => exact ⟨error, rfl⟩
  | pending | settled =>
      rw [hn] at houtcome
      cases hr.symm.trans houtcome
  | _ =>
      rw [hn] at hcalled
      cases hcalled

theorem take_succ {n : ℕ} {e : Core.TransferEvent} (hc : calls[n]? = some e) :
    calls.take (n + 1) = calls.take n ++ [e] := by
  obtain ⟨hlt, rfl⟩ := List.getElem?_eq_some_iff.mp hc
  exact List.take_succ_eq_append_getElem hlt

/-- A callback that is no progress is handled. -/
theorem other (hf : h.Follows calls) {e : Core.TransferEvent} (hc : calls[h.taken]? = some e)
    (he : e.emitted? = none) (hpushed : run.pushed = h.run.pushed)
    (hreported : ∀ id ∈ run.reported, id ∈ h.run.reported ∨ e = .started id)
    (hcalled : run.native.isCalled = true)
    (hanswered : ∀ error, run.native = .settled error ∨ run.native = .reacted error →
      run.native = h.run.native ∨ ∃ r, e = .settled r ∧ error = settlement r)
    (hreacted : ∀ error, h.run.native = .reacted error → run.native = .reacted error) :
    Follows calls { h with run, taken := h.taken + 1 } := by
  have htake := take_succ hc
  have hmem : e ∈ calls := List.mem_of_getElem? hc
  refine ⟨(List.getElem?_eq_some_iff.mp hc).1, fun hn => ?_, fun id hid => ?_,
    fun error herror => ?_, ?_⟩
  · rw [show run.native.isCalled = false from hn] at hcalled
    cases hcalled
  · rcases hreported id hid with hold | rfl
    · exact hf.reported id hold
    · exact hmem
  · show ∃ r, .settled r ∈ calls.take (h.taken + 1) ∧ _
    rw [htake]
    rcases hanswered error herror with hsame | ⟨r, rfl, hr⟩
    · obtain ⟨r, hr, herror⟩ := hf.answered error (hsame ▸ herror)
      exact ⟨r, List.mem_append_left _ hr, herror⟩
    · exact ⟨r, List.mem_append_right _ (List.mem_singleton_self _), hr⟩
  · show ∃ m ≤ h.taken + 1, run.pushed = _ ∧ _
    obtain ⟨m, hm, hsame, rfl | ⟨error, hold, hlast⟩⟩ := hf.pushed
    · refine ⟨h.taken + 1, le_rfl, ?_, .inl rfl⟩
      rw [htake, List.filterMap_append, hpushed, hsame]
      simp [he]
    · exact ⟨m, hm.trans (Nat.le_succ _), hpushed.trans hsame,
        .inr ⟨error, hreacted error hold, hlast⟩⟩

variable [DecidableEq φ]

/-- The host and its consumers change nothing of it. -/
theorem event (hf : h.Follows calls) {e : TransferEvent φ} (he : e.native = false)
    (hr : h.run.step (.event e) = some run) : Follows calls { h with run } := by
  obtain rfl := TransferRun.event_eq hr
  have hnone : e.id? = none := by
    cases e with
    | onStart => cases he
    | _ => rfl
  have hpushed : (h.run.after e).pushed = h.run.pushed :=
    TransferRun.pushed_after fun bytes hbytes => by rw [hbytes] at he; cases he
  refine ⟨hf.bound, hf.idle, fun id hid => hf.reported id ?_, hf.answered, ?_⟩
  · rwa [TransferRun.after_reported, hnone, Option.toList_none, List.append_nil] at hid
  · show ∃ m ≤ h.taken, (h.run.after e).pushed = _ ∧ _
    rw [hpushed]
    exact hf.pushed

theorem reaction (hf : h.Follows calls) (hr : h.run.step .reaction = some run) :
    Follows calls { h with run } := by
  obtain ⟨error, hn, rfl⟩ := TransferRun.reaction_eq hr
  have hpushed : (h.run.after (.downloaded error)).pushed = h.run.pushed :=
    TransferRun.pushed_after nofun
  refine ⟨hf.bound, nofun, fun id hid => hf.reported id ?_, fun error' herror => ?_, ?_⟩
  · simpa [TransferRun.after_reported, TransferEvent.id?] using hid
  · obtain rfl : error = error' := by
      rcases herror with herror | herror
      · cases herror
      · exact NativePromise.reacted.inj herror
    exact hf.answered error (.inl hn)
  · obtain ⟨m, hm, hsame, rfl | ⟨error', hreacted, -⟩⟩ := hf.pushed
    · exact ⟨h.taken, le_rfl, hpushed.trans hsame, .inl rfl⟩
    · cases hn.symm.trans hreacted

theorem handle (hf : h.Follows calls) (hl : h.run.Lives) (ha : h.run.Asks) {e : Core.TransferEvent}
    (hc : calls[h.taken]? = some e) (hr : h.handle e = some run) :
    Follows calls { h with run, taken := h.taken + 1 } := by
  have hcalled : h.run.native.isCalled = true := by
    cases hn : h.run.native.isCalled with
    | true => rfl
    | false =>
        rw [hf.idle hn] at hc
        cases hc
  cases e with
  | started handle =>
      obtain rfl := TransferRun.event_eq hr
      refine hf.other hc rfl (TransferRun.pushed_after nofun) (fun id hid => ?_) hcalled
        (fun error herror => .inl rfl) (fun error herror => herror)
      rcases List.mem_append.mp hid with hold | hnew
      · exact .inl hold
      · exact .inr (congrArg _ (List.mem_singleton.mp hnew).symm)
  | settled r =>
      obtain ⟨hn, rfl⟩ := TransferRun.settle_eq hr
      refine hf.other hc rfl rfl (fun id hid => .inl hid) rfl
        (fun error herror => .inr ⟨r, rfl, ?_⟩) (fun error herror => ?_)
      · rcases herror with herror | herror
        · exact (NativePromise.settled.inj herror).symm
        · cases herror
      · cases hn.symm.trans herror
  | emitted bytes =>
      obtain rfl := TransferRun.event_eq hr
      have htake := take_succ hc
      have hpush := TransferRun.pushed_onProgress hl ha bytes
      refine ⟨(List.getElem?_eq_some_iff.mp hc).1, fun hn => ?_, fun id hid => hf.reported id ?_,
        fun error herror => ?_, ?_⟩
      · rw [show h.run.native.isCalled = false from hn] at hcalled
        cases hcalled
      · simpa [TransferRun.after_reported, TransferEvent.id?] using hid
      · obtain ⟨r, hr, herror⟩ := hf.answered error herror
        refine ⟨r, ?_, herror⟩
        show _ ∈ calls.take (h.taken + 1)
        rw [htake]
        exact List.mem_append_left _ hr
      · show ∃ m ≤ h.taken + 1, (h.run.after (.onProgress bytes)).pushed = _ ∧ _
        rw [hpush]
        obtain ⟨m, hm, hsame, hlast⟩ := hf.pushed
        cases hs : h.run.transfer.isSettled with
        | true =>
            obtain ⟨error, hn⟩ := reacted_of_settled hl hcalled hs
            refine ⟨m, hm.trans (Nat.le_succ _), hsame, .inr ⟨error, hn, ?_⟩⟩
            rcases hlast with rfl | ⟨error', hn', hlast⟩
            · exact hf.answered error (.inr hn)
            · rwa [NativePromise.reacted.inj (hn.symm.trans hn')]
        | false =>
            rcases hlast with rfl | ⟨error, hn, -⟩
            · refine ⟨h.taken + 1, le_rfl, ?_, .inl rfl⟩
              rw [htake, List.filterMap_append, ← hsame]
              rfl
            · rw [settled_of_reacted hl hn] at hs
              cases hs
  | _ => cases hr

end Follows

/-- A callback is a step of the transfer. -/
theorem handle_step [DecidableEq φ] {run : TransferRun φ} {e : Core.TransferEvent}
    (hr : h.handle e = some run) :
    ∃ a, h.run.step a = some run ∧ run.native.isCalled = h.run.native.isCalled := by
  cases e with
  | started handle =>
      refine ⟨.event (.onStart handle), hr, ?_⟩
      obtain rfl := TransferRun.event_eq hr
      rfl
  | emitted bytes =>
      refine ⟨.event (.onProgress bytes), hr, ?_⟩
      obtain rfl := TransferRun.event_eq hr
      rfl
  | settled r =>
      refine ⟨.settle (settlement r), hr, ?_⟩
      obtain ⟨hn, rfl⟩ := TransferRun.settle_eq hr
      rw [hn]
      rfl
  | _ => cases hr

end DownloadHost

end Iroh
